import StateThreads.Lib.Tally
import StateThreads.Placement.Effects

/-! _st_active_count is the number of threads that have not exited, so that the idle thread
ends the process when the last of them has, and not before. -/
namespace StateThreads
open LabelledRun Counting

variable {σ ω : Type}

/-- Created, and not yet in st_thread_exit. -/
def Context.active : Context → Bool
  | .fresh | .user | .usleep | .poll | .cond _ _ | .lock _ => true
  | .unborn | .exiting | .idle | .gone => false

def Vp.active (vp : Vp) (t : Tid) : Bool := (vp.thr t).context.active

/-- activeCount is the number of active threads. -/
def Vp.Counts (vp : Vp) : Prop := Tally vp.active vp.activeCount

inductive Census (vp vp' : Vp) : Prop
  | same (active : ∀ u, vp'.active u = vp.active u) (count : vp'.activeCount = vp.activeCount)
  | born {t : Tid} (before : vp.active t = false) (after : vp'.active t = true)
    (others : ∀ u, u ≠ t → vp'.active u = vp.active u) (count : vp'.activeCount = vp.activeCount + 1)
  | left {t : Tid} (before : vp.active t = true) (after : vp'.active t = false)
    (others : ∀ u, u ≠ t → vp'.active u = vp.active u) (count : vp'.activeCount = vp.activeCount - 1)

theorem Vp.Counts.census {vp vp' : Vp} (counts : vp.Counts) (census : Census vp vp') : vp'.Counts := by
  rw [Vp.Counts]
  cases census with
  | same active count =>
    rw [count]
    exact Tally.same counts active
  | born before after others count =>
    rw [count]
    exact counts.add before after others
  | left before after others count =>
    rw [count]
    exact counts.remove before after others

theorem Touched.active {vp : Vp} {l : Label ω} {u : Tid} {th : Thread} (touched : Touched vp l u th)
    (old : ∀ joinable cvar, l ≠ .call (.threadCreate (some u) joinable cvar)) :
    th.context.active = vp.active u := by
  cases touched with
  | created cause unborn fresh => exact absurd cause (old _ _)
  | same | woken _ _ _ | flagged _ _ _ | reaped _ _ _ => rfl

theorem Parks.active {vp : Vp} {l : Label ω} {state : ThreadState} {context : Context}
    (parks : Parks vp l state context) : context.active = true ∧ ∃ op, l = .call op := by
  cases parks <;> exact ⟨rfl, _, rfl⟩

theorem Returns.active {vp : Vp} {context : Context} {flags : Flags} {out : Option Ret}
    (returns : Returns vp context flags out) : context.active = true := by
  cases returns <;> rfl

theorem Acted.active {vp : Vp} {l : Label ω} {out : Option Ret} {th : Thread} (acted : Acted vp l out th)
    (user : ∀ op, l = .call op → (vp.thr vp.current).context = .user) (stays : ∀ r, l ≠ .call (.threadExit r)) :
    th.context.active = vp.active vp.current := by
  cases acted with
  | same | cleared | flagged | idled => rfl
  | parked where_ flag result =>
    obtain ⟨parked, op, cause⟩ := where_.active
    rw [Vp.active, user op cause, parked]
    rfl
  | began cause place result => simp [Vp.active, place, Context.active]
  | returned cause back =>
    rw [Vp.active, back.active]
    rfl
  | rejoined cause place signalled alive result => simp [Vp.active, place, Context.active]
  | died cause joinable result => exact absurd cause (stays _)
  | left cause detached result => exact absurd cause (stays _)
  | ended cause place joinable result => simp [Vp.active, place, Context.active]

theorem Roused.activeCount {vp vp' : Vp} {ts : List Tid} {flags : Tid → Flags} (roused : Roused vp ts flags vp') :
    vp'.activeCount = vp.activeCount := by
  have same := congrArg Vp.activeCount roused.rest
  exact same

theorem stCondDestroy_activeCount (vp : Vp) (c : CondId) : (stCondDestroy vp c).1.activeCount = vp.activeCount := by
  unfold stCondDestroy
  split <;> rfl

theorem Move.activeCount {vp vp' : Vp} {l : Label ω} {out : Option Ret} {switch : Bool} (move : Move vp l vp' out switch)
    (creates : ∀ t joinable cvar, l ≠ .call (.threadCreate (some t) joinable cvar))
    (exits : ∀ r, l ≠ .call (.threadExit r)) : vp'.activeCount = vp.activeCount := by
  cases move with
  | signals kind roused | broadcasts kind roused => exact roused.activeCount
  | condNew fresh =>
    rename_i cvar
    cases cvar <;> rfl
  | mutexNew fresh =>
    rename_i lock
    cases lock <;> rfl
  | creates unborn => exact absurd rfl (creates _ _ _)
  | createsJoinable unborn fresh => exact absurd rfl (creates _ _ _)
  | exits term => exact absurd rfl (exits _)
  | dies joinable roused => exact absurd rfl (exits _)
  | cleansUp place joinable => exact stCondDestroy_activeCount vp _
  | idles place empty dispatched expired timers =>
    have first := congrArg Vp.activeCount dispatched.rest
    exact expired.activeCount.trans first
  | _ => rfl

theorem Move.quiet {vp vp' : Vp} {l : Label ω} {out : Option Ret} {switch : Bool} (move : Move vp l vp' out switch)
    (inv : Inv vp (some vp.current)) (user : ∀ op, l = .call op → (vp.thr vp.current).context = .user)
    (creates : ∀ t joinable cvar, l ≠ .call (.threadCreate (some t) joinable cvar))
    (exits : ∀ r, l ≠ .call (.threadExit r)) : Census vp vp' := by
  refine .same (fun u => ?_) (move.activeCount creates exits)
  by_cases me : u = vp.current
  · subst me
    exact (move.self inv).active user exits
  · exact (move.other inv me).active (creates u)

theorem Move.creates_census {vp vp' : Vp} {t : Tid} {joinable : Bool} {cvar : Option CondId} {out : Option Ret}
    {switch : Bool} (move : Move vp (.call (.threadCreate (some t) joinable cvar) : Label ω) vp' out switch) :
    Census vp vp' := by
  cases move with
  | interrupted blocks flag => cases blocks
  | createFails => exact .same (fun _ => rfl) rfl
  | creates unborn =>
    refine .born (t := t) (by simp [Vp.active, unborn, Context.active]) ?_ (fun u other => ?_) rfl
    · simp [Vp.active, Vp.started, Context.active]
    · simp [Vp.active, Vp.started, other]
  | createsJoinable unborn fresh =>
    refine .born (t := t) (by simp [Vp.active, unborn, Context.active]) ?_ (fun u other => ?_) rfl
    · simp [Vp.active, Vp.started, Context.active]
    · simp [Vp.active, Vp.started, stCondNew, Vp.setCond, other]

theorem Move.exits_census {vp vp' : Vp} {retval : Nat} {out : Option Ret} {switch : Bool}
    (move : Move vp (.call (.threadExit retval) : Label ω) vp' out switch) (user : (vp.thr vp.current).context = .user) :
    Census vp vp' := by
  have mine : vp.active vp.current = true := by simp [Vp.active, user, Context.active]
  cases move with
  | interrupted blocks flag => cases blocks
  | exits term =>
    refine .left mine ?_ (fun u other => ?_) rfl
    · simp [Vp.active, Vp.finished, Vp.leaving, Vp.setThr, Context.active]
    · simp [Vp.active, Vp.finished, Vp.leaving, Vp.setThr, other]
  | dies joinable roused =>
    refine .left mine ?_ (fun u other => ?_) roused.activeCount
    · simp [Vp.active, roused.context, Vp.dying, Context.active]
    · simp [Vp.active, roused.context, Vp.dying, other]

theorem Move.census {vp vp' : Vp} {l : Label ω} {out : Option Ret} {switch : Bool} (move : Move vp l vp' out switch)
    (inv : Inv vp (some vp.current)) (user : ∀ op, l = .call op → (vp.thr vp.current).context = .user) :
    Census vp vp' := by
  by_cases creates : ∃ t joinable cvar, l = .call (.threadCreate (some t) joinable cvar)
  · obtain ⟨t, joinable, cvar, rfl⟩ := creates
    exact move.creates_census
  by_cases exits : ∃ r, l = .call (.threadExit r)
  · obtain ⟨r, rfl⟩ := exits
    exact move.exits_census (user _ rfl)
  · exact move.quiet inv user (fun t joinable cvar same => creates ⟨t, joinable, cvar, same⟩) fun r same => exits ⟨r, same⟩

theorem Vp.active_after (vp : Vp) (switch : Bool) (t : Tid) : (vp.after switch).active t = vp.active t := by
  cases switch with
  | false => rfl
  | true =>
    simp only [Vp.active, Vp.after, if_true, Vp.yielded, Vp.switched]
    by_cases same : t = (nextThread vp).1
    · rw [same, Function.update_self]
    · rw [Function.update_of_ne same]

theorem Vp.activeCount_after (vp : Vp) (switch : Bool) : (vp.after switch).activeCount = vp.activeCount := by
  cases switch <;> rfl

theorem Vp.Counts.after {vp : Vp} (counts : vp.Counts) (switch : Bool) : (vp.after switch).Counts := by
  rw [Vp.Counts, vp.activeCount_after switch]
  exact Tally.same counts (vp.active_after switch)

theorem Vp.Counts.step {E : EventSys σ ω} {e : SysEvent σ ω} (counts : e.pre.vp.Counts)
    (settled : Settled e.pre.vp) (fired : e.Fired (machine E)) : e.post.vp.Counts := by
  obtain ⟨vp', switch, post, move, -⟩ := settled.step fired
  have user : ∀ op, e.label = .call op → (e.pre.vp.thr e.pre.vp.current).context = .user := by
    intro op call
    have ok := fired.enabled
    simp only [call, machine, enabled, Bool.and_eq_true, decide_eq_true_eq] at ok
    exact ok.1
  rw [post]
  exact (counts.census (move.census settled.inv user)).after switch

theorem stInit_counts {answers : InitAnswers} {vp : Vp} (ok : stInit Vp.boot answers = some vp) :
    vp.Counts ∧ vp.currTime = 0 := by
  obtain ⟨ioInit, eventInit, now, stack, object⟩ := answers
  cases ioInit with
  | false => simp [stInit, Vp.boot] at ok
  | true =>
    cases eventInit with
    | false => simp [stInit, Vp.boot] at ok
    | true =>
      cases stack with
      | none => simp [stInit, Vp.boot] at ok
      | some i =>
        cases object with
        | none => simp [stInit, Vp.boot, startThread, Vp.addRunq, Vp.setThr] at ok
        | some p =>
          simp [stInit, Vp.boot, startThread, Vp.addRunq, Vp.setThr] at ok
          subst ok
          refine ⟨⟨{ p }, fun t => ?_, by simp⟩, rfl⟩
          by_cases primordial : t = p
          · simp [Vp.active, primordial, Context.active]
          · by_cases idle : t = i
            · subst idle
              simp [Vp.active, primordial, Context.active]
            · simp [Vp.active, primordial, idle, Context.active]

theorem Started.counts {E : EventSys σ ω} {s : System σ} (started : Started E s) : s.vp.Counts := by
  obtain ⟨-, answers, ok, -⟩ := started
  exact (stInit_counts ok).1

theorem SysRun.counts {E : EventSys σ ω} {hist : List (SysEvent σ ω)} {s : System σ} (run : SysRun E hist s) :
    s.vp.Counts := by
  induction run with
  | begin started => exact started.counts
  | next before fired ih => exact ih.step (SysRun.settled before) fired

/-- In every state that a program reaches _st_active_count is the number of threads that
have been created and have not called st_thread_exit. So the loop of the idle thread ends
the process when there are none left, and the count is positive whenever one runs. -/
theorem active_count_exact (E : EventSys σ ω) (hist : List (SysEvent σ ω)) (s : System σ) (run : SysRun E hist s) :
    ∃ ts : Finset Tid, (∀ t, t ∈ ts ↔ (s.vp.thr t).context.active = true) ∧ s.vp.activeCount = ts.card ∧
      (0 < s.vp.activeCount ↔ ∃ t, (s.vp.thr t).context.active = true) ∧
      ((s.vp.thr s.vp.current).context ≠ .idle → (s.vp.thr s.vp.current).context ≠ .exiting → 0 < s.vp.activeCount) := by
  have some_ : 0 < s.vp.activeCount ↔ ∃ t, (s.vp.thr t).context.active = true := Tally.pos_iff run.counts
  obtain ⟨ts, active, count⟩ := run.counts
  refine ⟨ts, active, count, some_, fun busy staying => some_.mpr ⟨s.vp.current, ?_⟩⟩
  have live := run.settled.inv.running.1
  cases place : (s.vp.thr s.vp.current).context <;> simp_all [Context.active, Context.live]

/-- The primordial thread creates 2 and 3 and sleeps, and 2 exits: two are left. -/
theorem active_count_exact_three_less_one : ∃ hist s, SysRun (Poll.eventSys Poll.silent) hist s ∧
    s.vp.activeCount = 2 ∧ ∃ ts : Finset Tid, (∀ t, t ∈ ts ↔ (s.vp.thr t).context.active = true) ∧
      s.vp.activeCount = ts.card ∧ (0 < s.vp.activeCount ↔ ∃ t, (s.vp.thr t).context.active = true) ∧
      ((s.vp.thr s.vp.current).context ≠ .idle → (s.vp.thr s.vp.current).context ≠ .exiting → 0 < s.vp.activeCount) := by
  obtain ⟨hist, s, run, seen⟩ := Run.found (M := machine (Poll.eventSys Poll.silent))
    [.call (.threadCreate (some 2) true (some 0)), .call (.threadCreate (some 3) false none), .call (.usleep 900), .resume,
      .call (.threadExit 7)]
    Poll.started_ok (p := fun _ s => decide (s.vp.activeCount = 2)) (by decide +kernel)
  exact ⟨hist, s, run, of_decide_eq_true seen, active_count_exact _ hist s run⟩

end StateThreads
