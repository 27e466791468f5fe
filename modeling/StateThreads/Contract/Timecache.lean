import StateThreads.Contract.Active
import StateThreads.Time

/-! The time that st_time answers from its cache, and the clock of st_utime. -/
namespace StateThreads
open LabelledRun

variable {σ ω : Type} {E : EventSys σ ω}

def Vp.cache (vp : Vp) : Nat × UTime := (vp.currTime, vp.lastTset)

theorem Roused.cache {vp vp' : Vp} {ts : List Tid} {flags : Tid → Flags} (roused : Roused vp ts flags vp') :
    vp'.cache = vp.cache := by
  have same := congrArg Vp.cache roused.rest
  exact same

theorem stCondDestroy_cache (vp : Vp) (c : CondId) : (stCondDestroy vp c).1.cache = vp.cache := by
  unfold stCondDestroy
  split <;> rfl

theorem Move.cache {vp vp' : Vp} {l : Label ω} {out : Option Ret} {switch : Bool} (move : Move vp l vp' out switch)
    (idles : ∀ now time, l ≠ .idle now time) : vp'.cache = vp.cache := by
  cases move with
  | signals kind roused | broadcasts kind roused => exact roused.cache
  | dies joinable roused => exact roused.cache
  | condNew fresh =>
    rename_i cvar
    cases cvar <;> rfl
  | mutexNew fresh =>
    rename_i lock
    cases lock <;> rfl
  | cleansUp place joinable => exact stCondDestroy_cache vp _
  | idles place empty dispatched expired timers => exact absurd rfl (idles _ _)
  | _ => rfl

theorem Vp.cache_after (vp : Vp) (switch : Bool) : (vp.after switch).cache = vp.cache := by
  cases switch <;> rfl

def Vp.stale (vp : Vp) (now : UTime) : Prop := vp.currTime ≠ 0 ∧ 999000 < now - vp.lastTset

theorem stVpCheckClock_cache {vp vp' : Vp} {r : Option Tid} (inv : Inv vp r) {now : UTime} {time : Nat}
    (run : stVpCheckClock vp now time = some vp') :
    vp.stale now ∧ vp'.cache = (time, now) ∨ ¬vp.stale now ∧ vp'.cache = vp.cache := by
  unfold Vp.stale
  by_cases stale : vp.currTime ≠ 0 ∧ 999000 < now - vp.lastTset
  · obtain ⟨vp₁, ts, run₁, -, roused, -⟩ :=
      checkClockLoop_run now (vp.sleepQ.sleepqSize + 1) (inv.clock now now time vp.activeCount) (Nat.lt_succ_self _)
    simp only [stVpCheckClock, if_pos stale] at run
    rw [run] at run₁
    cases run₁
    exact .inl ⟨stale, roused.cache⟩
  · obtain ⟨vp₁, ts, run₁, -, roused, -⟩ := checkClockLoop_run now (vp.sleepQ.sleepqSize + 1)
      (inv.clock now vp.lastTset vp.currTime vp.activeCount) (Nat.lt_succ_self _)
    simp only [stVpCheckClock, if_neg stale] at run
    rw [run] at run₁
    cases run₁
    exact .inr ⟨stale, roused.cache⟩

theorem switchContext_cache {vp vp' : Vp} {context : Context} {out : Option Ret}
    (run : switchContext vp context = some (vp', out)) : vp'.cache = vp.cache := by
  obtain ⟨vp₁, scheduled, same⟩ := Option.bind_eq_some_iff.mp run
  cases same
  simp only [stVpSchedule] at scheduled
  split at scheduled
  · cases scheduled
    rfl
  · cases scheduled

theorem stIdleTurn_cache {s s' : System σ} (settled : Settled s.vp) {now : UTime} {time : Nat} {out : Option Ret}
    (ok : enabled E s (.idle now time) = true) (run : stIdleTurn E s now time = some (s', out)) :
    s.vp.stale now ∧ s'.vp.cache = (time, now) ∨ ¬s.vp.stale now ∧ s'.vp.cache = s.vp.cache := by
  simp only [enabled, Bool.and_eq_true, decide_eq_true_eq] at ok
  obtain ⟨evt, vp₁, ts, run₁, inv₁, dispatched⟩ := dispatch_run E settled.inv ok.1.1 (settled.empty ok.1.1) ok.2
  have first : vp₁.cache = s.vp.cache := by
    have same := congrArg Vp.cache dispatched.rest
    exact same
  have old : vp₁.stale now ↔ s.vp.stale now := by
    obtain ⟨curr, tset⟩ := Prod.mk.inj first
    rw [Vp.stale, Vp.stale, curr, tset]
  simp only [stIdleTurn, run₁, Option.bind_eq_bind, Option.bind_some, Option.bind_eq_some_iff] at run
  obtain ⟨vp₂, run₂, ⟨vp₃, r⟩, run₃, same⟩ := run
  cases same
  have last : vp₃.cache = vp₂.cache := (switchContext_cache run₃).trans rfl
  have checked := stVpCheckClock_cache inv₁ run₂
  rw [old, first] at checked
  rw [last]
  exact checked

def TimeLabel.asked : TimeLabel ω → Option (Nat × UTime)
  | .timecacheSet on answer now => if on then some (answer, now) else none
  | .lib (.idle now answer) => some (answer, now)
  | _ => none

def TimeLabel.sets : TimeLabel ω → Bool
  | .timecacheSet _ _ _ => true
  | _ => false

/-- A step that leaves a cache fetched at the clock reading now in use. -/
def LeavesCache (now : UTime) (l : TimeLabel ω) : Prop :=
  l.sets = false ∧ ∀ later time, l = .lib (.idle later time) → later - now ≤ 999000

/-- The time was fetched at now; since then the cache was not set anew, and the idle thread
has seen no clock more than 999 ms after it. -/
def Recent (hist : List (TimeEvent σ ω)) (time : Nat) (now : UTime) : Prop :=
  ∃ newer e older, hist = newer ++ e :: older ∧ e.label.asked = some (time, now) ∧ ∀ n ∈ newer, LeavesCache now n.label

theorem Recent.here {hist : List (TimeEvent σ ω)} {e : TimeEvent σ ω} {time : Nat} {now : UTime}
    (asked : e.label.asked = some (time, now)) : Recent (e :: hist) time now :=
  ⟨[], e, hist, rfl, asked, by simp⟩

theorem Recent.later {hist : List (TimeEvent σ ω)} {time : Nat} {now : UTime} (recent : Recent hist time now)
    {e : TimeEvent σ ω} (leaves : LeavesCache now e.label) : Recent (e :: hist) time now := by
  obtain ⟨newer, f, older, rfl, asked, between⟩ := recent
  refine ⟨e :: newer, f, older, rfl, asked, fun n mem => ?_⟩
  obtain rfl | old := List.mem_cons.mp mem
  · exact leaves
  · exact between n old

structure Timed (hist : List (TimeEvent σ ω)) (vp : Vp) : Prop where
  settled : Settled vp
  counts : vp.Counts
  recent : vp.currTime ≠ 0 → Recent hist vp.currTime vp.lastTset

theorem Settled.timecacheSet {vp : Vp} (settled : Settled vp) (on : Bool) (time : Nat) (now : UTime) :
    Settled (stTimecacheSet vp on time now).1 := by
  cases on with
  | true => exact ⟨settled.inv.clock vp.lastClock now time vp.activeCount, settled.empty⟩
  | false => exact ⟨settled.inv.clock vp.lastClock vp.lastTset 0 vp.activeCount, settled.empty⟩

theorem Vp.Counts.timecacheSet {vp : Vp} (counts : vp.Counts) (on : Bool) (time : Nat) (now : UTime) :
    (stTimecacheSet vp on time now).1.Counts := by
  cases on with
  | true => exact counts
  | false => exact counts

theorem Timed.refused {hist : List (TimeEvent σ ω)} {s : TimedSystem σ} (timed : Timed hist s.lib.vp)
    (user : (s.lib.vp.thr s.lib.vp.current).context = .user) (func : Option Nat) :
    stSetUtimeFunction s func = (s, .status (some .einval)) := by
  have some_ := timed.counts.pos_iff.mpr ⟨s.lib.vp.current, by simp [Vp.active, user, Context.active]⟩
  have busy : s.lib.vp.activeCount ≠ 0 := by omega
  rw [stSetUtimeFunction, if_pos busy]

theorem Timed.keeps {hist : List (TimeEvent σ ω)} {e : TimeEvent σ ω} (timed : Timed hist e.pre.lib.vp)
    (settled : Settled e.post.lib.vp) (counts : e.post.lib.vp.Counts)
    (same : e.post.lib.vp.cache = e.pre.lib.vp.cache)
    (leaves : e.pre.lib.vp.currTime ≠ 0 → LeavesCache e.pre.lib.vp.lastTset e.label) : Timed (e :: hist) e.post.lib.vp := by
  obtain ⟨curr, tset⟩ := Prod.mk.inj same
  refine ⟨settled, counts, fun on => ?_⟩
  rw [curr] at on
  rw [curr, tset]
  exact (timed.recent on).later (leaves on)

theorem Timed.lib {hist : List (TimeEvent σ ω)} {e : TimeEvent σ ω} (timed : Timed hist e.pre.lib.vp)
    {l : Label ω} (label : e.label = .lib l) (fired : e.Fired (timedMachine E)) : Timed (e :: hist) e.post.lib.vp := by
  have step_ := fired.step
  have ok := fired.enabled
  simp only [label, timedMachine, timedStep, timedEnabled] at step_ ok
  obtain ⟨⟨lib, out⟩, taken, same⟩ := Option.map_eq_some_iff.mp step_
  obtain ⟨post, -⟩ := Prod.mk.inj same
  have inner : Event.Fired (machine E) ⟨e.pre.lib, l, out, lib⟩ := ⟨ok, taken⟩
  obtain ⟨vp', switch, after, move, -, -, settled⟩ := timed.settled.step inner
  have counts' := timed.counts.step timed.settled inner
  have lib_ : e.post.lib = lib := by rw [← post]
  rw [← lib_] at settled counts' after
  by_cases idles : ∃ now time, l = .idle now time
  · obtain ⟨now, time, rfl⟩ := idles
    obtain ⟨stale, fetched⟩ | ⟨fresh, kept⟩ := stIdleTurn_cache timed.settled ok taken
    · rw [← lib_] at fetched
      obtain ⟨curr, tset⟩ := Prod.mk.inj fetched
      refine ⟨settled, counts', fun _ => ?_⟩
      rw [curr, tset]
      exact .here (by rw [label]; rfl)
    · rw [← lib_] at kept
      refine timed.keeps settled counts' kept fun on => ⟨by rw [label]; rfl, fun later time' turn => ?_⟩
      rw [label] at turn
      cases turn
      exact not_lt.mp fun old => fresh ⟨on, old⟩
  · have kept : e.post.lib.vp.cache = e.pre.lib.vp.cache := by
      rw [after, Vp.cache_after]
      exact move.cache fun now time same => idles ⟨now, time, same⟩
    refine timed.keeps settled counts' kept fun _ => ⟨by rw [label]; rfl, fun later time turn => ?_⟩
    rw [label] at turn
    cases turn
    exact absurd ⟨_, _, rfl⟩ idles

theorem Timed.step {hist : List (TimeEvent σ ω)} {e : TimeEvent σ ω} (timed : Timed hist e.pre.lib.vp)
    (fired : e.Fired (timedMachine E)) : Timed (e :: hist) e.post.lib.vp := by
  have taken := fired.step
  have user := fired.enabled
  cases label : e.label with
  | lib l => exact timed.lib label fired
  | setUtimeFunction func =>
    simp only [label, timedMachine, timedStep, timedEnabled, decide_eq_true_eq] at taken user
    rw [timed.refused user func] at taken
    obtain ⟨post, -⟩ := Prod.mk.inj (Option.some.inj taken)
    have same : e.post.lib.vp = e.pre.lib.vp := by rw [post]
    exact timed.keeps (same ▸ timed.settled) (same ▸ timed.counts) (by rw [same])
      fun _ => ⟨by rw [label]; rfl, by simp [label]⟩
  | utimeLastClock =>
    simp only [label, timedMachine, timedStep] at taken
    obtain ⟨post, -⟩ := Prod.mk.inj (Option.some.inj taken)
    have same : e.post.lib.vp = e.pre.lib.vp := by rw [post]
    exact timed.keeps (same ▸ timed.settled) (same ▸ timed.counts) (by rw [same])
      fun _ => ⟨by rw [label]; rfl, by simp [label]⟩
  | timecacheSet on time now =>
    simp only [label, timedMachine, timedStep] at taken
    obtain ⟨post, -⟩ := Prod.mk.inj (Option.some.inj taken)
    have same : e.post.lib.vp = (stTimecacheSet e.pre.lib.vp on time now).1 := by rw [← post]
    rw [same]
    refine ⟨timed.settled.timecacheSet on time now, timed.counts.timecacheSet on time now, fun used => ?_⟩
    cases on with
    | true => exact .here (by rw [label]; rfl)
    | false => exact absurd rfl used
  | time time =>
    simp only [label, timedMachine, timedStep] at taken
    obtain ⟨post, -⟩ := Prod.mk.inj (Option.some.inj taken)
    have same : e.post.lib.vp = e.pre.lib.vp := by rw [post]
    exact timed.keeps (same ▸ timed.settled) (same ▸ timed.counts) (by rw [same])
      fun _ => ⟨by rw [label]; rfl, by simp [label]⟩

theorem TimedRun.timed {hist : List (TimeEvent σ ω)} {s : TimedSystem σ} (run : TimedRun E hist s) :
    Timed hist s.lib.vp := by
  induction run with
  | @begin s started =>
    obtain ⟨-, answers, ok, -⟩ := id started
    exact ⟨Started.settled started, Started.counts started, fun used => absurd (stInit_counts ok).2 used⟩
  | next before fired ih => exact ih.step fired

/-- Whenever a program asks st_time, it is told what time(2) answers, or what it answered
before, at a clock reading that no later look of the idle thread at the clock was more than
999 ms after. And st_set_utime_function is always refused. -/
theorem time_cache_recent (E : EventSys σ ω) (hist : List (TimeEvent σ ω)) (s : TimedSystem σ) (run : TimedRun E hist s) :
    (∀ time, s.lib.vp.currTime = 0 ∧ stTime s.lib.vp time = time ∨ ∃ now, Recent hist (stTime s.lib.vp time) now) ∧
      ∀ e ∈ hist, ∀ func, e.label = .setUtimeFunction func → e.out = .status (some .einval) ∧ e.post = e.pre := by
  have timed := run.timed
  refine ⟨fun time => ?_, fun e mem func label => ?_⟩
  · by_cases off : s.lib.vp.currTime = 0
    · exact .inl ⟨off, by simp [stTime, off]⟩
    · refine .inr ⟨s.lib.vp.lastTset, ?_⟩
      rw [stTime, if_pos off]
      exact timed.recent off
  · obtain ⟨newer, older, rfl⟩ := List.append_of_mem mem
    obtain ⟨before, fired, -⟩ := run.split
    have taken := fired.step
    have user := fired.enabled
    simp only [label, timedMachine, timedStep, timedEnabled, decide_eq_true_eq] at taken user
    rw [(TimedRun.timed before).refused user func] at taken
    obtain ⟨post, out⟩ := Prod.mk.inj (Option.some.inj taken)
    exact ⟨out.symm, post.symm⟩

/-- The cache is set at 100, seen at 999100 and renewed at 999200. -/
theorem time_cache_recent_renewed : ∃ hist s, TimedRun (Poll.eventSys Poll.silent) hist s ∧
    (s.lib.vp.currTime = 9 ∧ s.lib.vp.lastTset = 999200 ∧ s.utime = some 1) ∧
    (∀ time, s.lib.vp.currTime = 0 ∧ stTime s.lib.vp time = time ∨ ∃ now, Recent hist (stTime s.lib.vp time) now) ∧
      ∀ e ∈ hist, ∀ func, e.label = .setUtimeFunction func → e.out = .status (some .einval) ∧ e.post = e.pre := by
  have started : TimedStarted (Poll.eventSys Poll.silent) ⟨Poll.started, some 1⟩ := Poll.started_ok
  obtain ⟨hist, s, run, seen⟩ := Run.found (M := timedMachine (Poll.eventSys Poll.silent))
    [.timecacheSet true 7 100, .setUtimeFunction none, .lib (.call (.usleep 999150)), .lib (.idle 999100 8),
      .lib (.idle 999200 9), .lib .resume, .time 10]
    started
    (p := fun _ s => decide (s.lib.vp.currTime = 9 ∧ s.lib.vp.lastTset = 999200 ∧ s.utime = some 1)) (by decide +kernel)
  exact ⟨hist, s, run, of_decide_eq_true seen, time_cache_recent _ hist s run⟩

end StateThreads
