import StateThreads.Startup

/-! The state in which a virtual processor starts. -/
namespace StateThreads

def EventReady (m : Memory) : Prop :=
  ∃ d, m.event = some d ∧ m.opened d.epfd = true ∧ 0 < d.fdDataSize ∧ (∀ fd, d.fdData fd = ⟨0, 0, 0, 0⟩) ∧ d.evtlistCnt = 0

structure InitInv (m : Memory) : Prop where
  runQ : m.runQ = []
  ioQ : m.ioQ = []
  zombieQ : m.zombieQ = []
  sleepQ : m.sleepQ = none
  sleepqSize : m.sleepqSize = 0
  switchOut : m.switchOutCb = none
  switchIn : m.switchInCb = none
  active : m.activeCount = 1
  current : ∃ t, m.current = some t ∧ m.thr t = ⟨.running, ⟨true, false, false, false⟩, 0, none, .user⟩
  idle : ∃ t, m.idleThread = some t ∧ t ∉ m.runQ ∧ m.thr t = ⟨.runnable, ⟨false, true, false, false⟩, 0, none, .idle⟩
  event : EventReady m

structure Unset (m : Memory) : Prop where
  sleepQ : m.sleepQ = none
  sleepqSize : m.sleepqSize = 0
  switchOut : m.switchOutCb = none
  switchIn : m.switchInCb = none

theorem epollInit_spec {m m' : Memory} {fdlim : Int} {env : Environment} (run : epollInit m fdlim env = some m') :
    EventReady m' ∧ m' = { m with event := m'.event, opened := m'.opened } := by
  unfold epollInit at run
  split at run
  · cases run
  · split at run
    · cases run
    · split at run
      · cases run
      · split at run
        · cases run
        · cases run
          refine ⟨⟨_, rfl, by simp [Epoll.init], ?_, fun _ => rfl, rfl⟩, rfl⟩
          simp only [Epoll.init, Epoll.fdHint]
          split <;> omega

theorem firstThreads_spec {m m' : Memory} {env : Environment} (run : firstThreads m env = some m')
    (distinct : env.stack ≠ env.object) (idle : m.activeCount = 0) (empty : m.runQ = []) :
    m'.activeCount = 1 ∧ m'.runQ = [] ∧
      (∃ t, m'.current = some t ∧ m'.thr t = ⟨.running, ⟨true, false, false, false⟩, 0, none, .user⟩) ∧
      (∃ t, m'.idleThread = some t ∧ t ∉ m'.runQ ∧ m'.thr t = ⟨.runnable, ⟨false, true, false, false⟩, 0, none, .idle⟩) ∧
      m' = { m with
        pagesize := m'.pagesize, lastClock := m'.lastClock, thr := m'.thr, activeCount := m'.activeCount
        runQ := m'.runQ, idleThread := m'.idleThread, current := m'.current } := by
  simp only [firstThreads, Option.bind_eq_bind, Option.bind_eq_some_iff] at run
  obtain ⟨i, stack, p, object, run⟩ := run
  cases run
  have other : i ≠ p := by
    rintro rfl
    exact distinct (stack.trans object.symm)
  refine ⟨by simp [idle], by simp [empty], ⟨p, rfl, by simp⟩, ⟨i, rfl, by simp [empty], by simp [other]⟩, rfl⟩

def Environment.Raises (env : Environment) : Prop :=
  ∀ cur max, env.getrlimit = some (cur, max) → 0 ≤ intOfRlim max

theorem ioLimit_raised {env : Environment} {limit : Int} {raised : Bool} (run : ioLimit env = some (limit, raised)) :
    raised = true ↔ env.Raises := by
  have same : ∀ max, boundedRlim max = max := fun max => by simp [boundedRlim, epollFdGetlimit]
  unfold ioLimit at run
  unfold Environment.Raises
  split at run
  · cases run
  · split at run
    · cases run
    · rename_i cur max known
      rw [same] at run
      split at run
      · rename_i negative
        cases run
        simp only [Bool.false_eq_true, false_iff]
        intro all
        exact absurd (all cur max known) (by omega)
      · rename_i nonneg
        split at run
        · cases run
        · cases run
          simp only [true_iff]
          intro cur' max' other
          rw [known] at other
          cases other
          omega

theorem stInitMemory_initInv {prior m : Memory} {env : Environment} (fresh : prior.activeCount = 0)
    (distinct : env.stack ≠ env.object) (run : stInitMemory prior env = some m) : InitInv m := by
  rw [stInitMemory, if_neg (by simp [fresh])] at run
  simp only [Option.bind_eq_bind, Option.bind_eq_some_iff] at run
  obtain ⟨⟨limit, raised⟩, -, m₁, made, run⟩ := run
  obtain ⟨⟨d, ready⟩, same⟩ := epollInit_spec made
  obtain ⟨active, queue, current, idle, rest⟩ := firstThreads_spec run distinct (by rw [same]; exact fresh) (by rw [same])
  refine ⟨queue, ?_, ?_, ?_, ?_, ?_, ?_, active, current, idle, d, ?_⟩
  · rw [rest, same]
  · rw [rest, same]
  · rw [rest, same]
  · rw [rest, same]
  · rw [rest, same]
  · rw [rest, same]
  · rw [rest]; exact ready

/-- Initialisation of a CStVp: what the constructor and st_init leave alone has to be
right beforehand. -/
theorem cstVp_startup (prior m : Memory) (env : Environment) (distinct : env.stack ≠ env.object)
    (run : CStVp.stInit (CStVp.construct prior) env = some m) :
    InitInv m ↔ Unset prior ∧ (env.Raises ∨ EventReady prior) := by
  rw [CStVp.stInit, if_neg (by simp [CStVp.construct])] at run
  simp only [CStVp.stIoInit, Option.bind_eq_bind, Option.bind_eq_some_iff] at run
  obtain ⟨m₁, ⟨⟨limit, raised⟩, limits, made⟩, run⟩ := run
  have choice := ioLimit_raised limits
  -- the event system is ready, or is what it was
  have event : (env.Raises ∧ EventReady m₁ ∨ ¬ env.Raises ∧ (EventReady m₁ ↔ EventReady prior)) ∧
      m₁ = { CStVp.construct prior with osfdLimit := m₁.osfdLimit, event := m₁.event, opened := m₁.opened } := by
    cases raised with
    | true =>
      obtain ⟨ready, same⟩ := epollInit_spec made
      exact ⟨.inl ⟨choice.mp rfl, ready⟩, by rw [same]⟩
    | false =>
      cases made
      exact ⟨.inr ⟨fun raises => by simpa using choice.mpr raises, Iff.rfl⟩, rfl⟩
  obtain ⟨event, same⟩ := event
  obtain ⟨active, queue, current, idle, rest⟩ := firstThreads_spec run distinct (by rw [same]; rfl) rfl
  have ready : EventReady m ↔ EventReady m₁ := by rw [rest]; exact Iff.rfl
  constructor
  · intro inv
    obtain ⟨-, -, -, sleepQ, size, out, in_, -, -, -, eventReady⟩ := inv
    rw [rest, same] at sleepQ size out in_
    refine ⟨⟨sleepQ, size, out, in_⟩, ?_⟩
    obtain ⟨raises, -⟩ | ⟨-, before⟩ := event
    · exact .inl raises
    · exact .inr (before.mp (ready.mp eventReady))
  · rintro ⟨⟨sleepQ, size, out, in_⟩, reached⟩
    refine ⟨queue, ?_, ?_, ?_, ?_, ?_, ?_, active, current, idle, ready.mpr ?_⟩
    · rw [rest]
    · rw [rest]
    · rw [rest, same]; exact sleepQ
    · rw [rest, same]; exact size
    · rw [rest, same]; exact out
    · rw [rest, same]; exact in_
    · obtain ⟨-, done⟩ | ⟨never, before⟩ := event
      · exact done
      · obtain raises | found := reached
        · exact absurd raises never
        · exact before.mpr found

structure Memory.Shows (m : Memory) (vp : Vp) : Prop where
  current : m.current = some vp.current
  idleThread : m.idleThread = some vp.idleThread
  activeCount : m.activeCount = vp.activeCount
  lastClock : m.lastClock = vp.lastClock
  runQ : m.runQ = vp.runQ
  ioQ : m.ioQ = vp.ioQ
  zombieQ : m.zombieQ = vp.zombieQ
  sleepQ : m.sleepQ = vp.sleepQ.link .root
  sleepqSize : m.sleepqSize = vp.sleepQ.sleepqSize
  thr : ∀ t, (m.current = some t ∨ m.idleThread = some t) → m.thr t = vp.thr t

theorem InitInv.started {m : Memory} (inv : InitInv m) :
    ∃ answers vp, stInit Vp.boot answers = some vp ∧ answers.stack ≠ answers.object ∧ m.Shows vp := by
  obtain ⟨p, current, primordial⟩ := inv.current
  obtain ⟨i, idle, -, waiting⟩ := inv.idle
  have other : i ≠ p := by
    rintro rfl
    rw [primordial] at waiting
    cases waiting
  obtain ⟨vp, made⟩ : ∃ vp, stInit Vp.boot ⟨true, true, m.lastClock, some i, some p⟩ = some vp := ⟨_, rfl⟩
  refine ⟨_, vp, made, by simpa using other, ?_⟩
  simp [stInit, Vp.boot, startThread, Vp.addRunq, Vp.setThr] at made
  rw [← made]
  refine ⟨current, idle, inv.active, rfl, inv.runQ, inv.ioQ, inv.zombieQ, by simpa using inv.sleepQ, inv.sleepqSize, ?_⟩
  rintro t (here | here)
  · obtain rfl : p = t := Option.some.inj (current.symm.trans here)
    simpa using primordial
  · obtain rfl : i = t := Option.some.inj (idle.symm.trans here)
    simpa [other] using waiting

def Memory.zero : Memory where
  current := none
  activeCount := 0
  idleThread := none
  lastClock := 0
  runQ := []
  ioQ := []
  zombieQ := []
  pagesize := 0
  sleepQ := none
  sleepqSize := 0
  switchOutCb := none
  switchInCb := none
  numFreeStacks := 0
  randomizeStacks := 0
  freeStacks := []
  currTime := 0
  osfdLimit := 0
  event := none
  opened _ := false
  thr _ := ⟨.running, ⟨false, false, false, false⟩, 0, none, .unborn⟩

def Environment.obliging (max : BitVec 64) : Environment where
  sigaction := true
  getrlimit := some (1024, max)
  setrlimit := true
  fdlimit := -1
  callocData := true
  epollCreate := some 4
  callocFdData := true
  mallocEvtlist := true
  pid := 1
  pagesize := 4096
  now := 0
  stack := some 0
  object := some 1

theorem cstVp_startup_zeroed :
    ∃ m, CStVp.stInit (CStVp.construct .zero) (.obliging 4096) = some m ∧ Unset .zero ∧
      Environment.Raises (.obliging 4096) ∧ InitInv m := by
  obtain ⟨m, run⟩ : ∃ m, CStVp.stInit (CStVp.construct .zero) (.obliging 4096) = some m := ⟨_, rfl⟩
  have unset : Unset .zero := ⟨rfl, rfl, rfl, rfl⟩
  have raises : Environment.Raises (.obliging 4096) := by
    rintro cur max ⟨rfl, rfl⟩
    decide
  exact ⟨m, run, unset, raises, (cstVp_startup _ m _ (by decide) run).mpr ⟨unset, .inl raises⟩⟩

/-- In memory that held something where sleep_q and the callbacks lie, and in zeroed memory
when rlim_max is RLIM_INFINITY, initialisation returns 0 and the invariant does not hold. -/
theorem cstVp_startup_stale :
    (∃ m, CStVp.stInit (CStVp.construct { Memory.zero with sleepQ := some 7, sleepqSize := -3, switchInCb := some 9 })
      (.obliging 4096) = some m ∧ m.sleepQ = some 7 ∧ m.sleepqSize = -3 ∧ m.switchInCb = some 9 ∧ ¬ InitInv m) ∧
    (∃ m, CStVp.stInit (CStVp.construct .zero) (.obliging (BitVec.allOnes 64)) = some m ∧ m.event = none ∧
      ¬ InitInv m) := by
  refine ⟨⟨_, rfl, rfl, rfl, rfl, fun inv => ?_⟩, ⟨_, rfl, rfl, fun inv => ?_⟩⟩
  · cases inv.sleepQ
  · obtain ⟨d, event, -⟩ := inv.event
    cases event

end StateThreads
