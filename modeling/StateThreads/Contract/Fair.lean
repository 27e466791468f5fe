import StateThreads.Lib.Fifo
import StateThreads.Placement.Reachable

/-! The run queue is served in order: no thread that can run is passed over, and the idle
thread runs only when there is none. -/
namespace StateThreads
open LabelledRun

variable {σ ω : Type}

def gives (e : SysEvent σ ω) : Option Tid :=
  if e.post.vp.current ≠ e.pre.vp.current ∧ e.post.vp.current ≠ e.post.vp.idleThread then some e.post.vp.current else none

theorem Move.runQ {vp vp' : Vp} {l : Label ω} {out : Option Ret} {switch : Bool} (move : Move vp l vp' out switch) :
    vp.runQ <+: vp'.runQ := by
  cases move with
  | signals kind roused | broadcasts kind roused =>
    rw [roused.runQ]
    exact List.prefix_append ..
  | dies joinable roused =>
    rw [roused.runQ]
    exact List.prefix_append ..
  | idles place empty dispatched expired timers =>
    rw [empty]
    exact List.nil_prefix
  | condNew fresh =>
    rename_i cvar
    cases cvar <;> exact List.prefix_rfl
  | mutexNew fresh =>
    rename_i lock
    cases lock <;> exact List.prefix_rfl
  | cleansUp place joinable =>
    show vp.runQ <+: (stCondDestroy vp _).1.runQ
    unfold stCondDestroy
    split <;> exact List.prefix_rfl
  | handsOver _ _ | creates _ | createsJoinable _ _ | joins _ _ _ _ _ | interruptsBlocked _ _ _ | joined _ _ _ _ =>
    exact List.prefix_append ..
  | _ => exact List.prefix_rfl

def Thread.Queued (th : Thread) : Prop := th.context.live = true ∧ th.state = .runnable ∧ th.context ≠ .idle

/-- The thread that gives up the processor is not queued for it: it is blocked, has ended or
is the idle thread. -/
theorem Move.gives_up {vp vp' : Vp} {l : Label ω} {out : Option Ret} (move : Move vp l vp' out true) :
    ¬(vp'.thr vp.current).Queued := by
  generalize switch : true = b at move
  cases move with
  | sleeps flag kind =>
    rintro ⟨-, runnable, -⟩
    simp only [Vp.parked, Function.update_self] at runnable
    obtain rfl | rfl := kind <;> cases runnable
  | waits flag kind | joinWaits flag joinable other alone alive live =>
    rintro ⟨-, runnable, -⟩
    simp [Vp.waiting, Vp.parked, Vp.setCond] at runnable
  | locks flag held other =>
    rintro ⟨-, runnable, -⟩
    simp [Vp.locking, Vp.parked, Vp.setMutex] at runnable
  | polls flag =>
    rintro ⟨-, runnable, -⟩
    simp [Vp.polling, Vp.parked] at runnable
  | exits term =>
    rintro ⟨live, -, -⟩
    simp [Vp.finished, Vp.leaving, Vp.setThr, Context.live] at live
  | dies joinable roused =>
    rintro ⟨-, runnable, -⟩
    have zombie (r : Nat) : ((vp.dying r).thr vp.current).state = .zombie := by simp [Vp.dying]
    rw [roused.thr] at runnable
    split at runnable
    · rename_i woken
      have blocked := (roused.blocked _ woken).2
      rw [zombie] at blocked
      cases blocked
    · rw [zombie] at runnable
      cases runnable
  | joinAgain place signalled alive =>
    rintro ⟨-, runnable, -⟩
    simp [Vp.waiting, Vp.parked, Vp.setCond, Vp.back, Vp.setThr, Vp.unlinkCond] at runnable
  | cleansUp place joinable =>
    rintro ⟨live, -, -⟩
    simp [Vp.finished, Vp.setThr, stCondDestroy_current, Context.live] at live
  | idles place empty dispatched expired timers =>
    rintro ⟨-, -, other⟩
    apply other
    simp only [Vp.setState, Vp.setThr, Function.update_self, expired.context, dispatched.thr]
    split <;> exact place
  | _ => cases switch

theorem Inv.queued {vp : Vp} {r : Option Tid} (inv : Inv vp r) {t : Tid} (member : t ∈ vp.runQ) : (vp.thr t).Queued := by
  have positive := List.count_pos_iff.mpr member
  by_contra out
  have counted : vp.runQ.count t = 0 := (inv.views t).run.trans (if_neg out)
  omega

theorem Settled.queue {E : EventSys σ ω} {e : SysEvent σ ω} (settled : Settled e.pre.vp) (fired : e.Fired (machine E)) :
    ∃ joined, e.pre.vp.runQ ++ joined = (gives e).toList ++ e.post.vp.runQ := by
  obtain ⟨vp', switch, post, move, current, inv, -⟩ := settled.step fired
  obtain ⟨joined, queue⟩ := move.runQ
  refine ⟨joined, ?_⟩
  rw [queue, gives, post]
  cases switch with
  | false =>
    have stays : (vp'.after false).current = e.pre.vp.current := current
    rw [if_neg fun gone => gone.1 stays]
    rfl
  | true =>
    show vp'.runQ = (if (nextThread vp').1 ≠ e.pre.vp.current ∧ (nextThread vp').1 ≠ vp'.idleThread then
      some (nextThread vp').1 else none).toList ++ (nextThread vp').2
    cases first : vp'.runQ with
    | nil =>
      simp only [nextThread, first]
      rw [if_neg fun gone => gone.2 rfl]
      rfl
    | cons t rest =>
      have queued := inv.queued (t := t) (by rw [first]; exact List.mem_cons_self ..)
      have other : t ≠ e.pre.vp.current := by
        rintro rfl
        exact move.gives_up queued
      have busy : t ≠ vp'.idleThread := by
        intro idle
        exact queued.2.2 ((inv.views t).idle.mp (by simp [idle]))
      simp only [nextThread, first]
      rw [if_pos ⟨other, busy⟩]
      rfl

/-- From any moment on, the threads on the run queue are the first to get the processor, one
after the other, and until then they stay in this order; whoever joins comes after them. The
processor idles only while the run queue is empty. -/
theorem run_queue_fair (E : EventSys σ ω) (newer older : List (SysEvent σ ω)) (e : SysEvent σ ω) (s : System σ)
    (run : SysRun E (newer ++ e :: older) s) :
    e.post.vp.runQ <+: served gives newer ++ s.vp.runQ ∧
      (∀ k t, e.post.vp.runQ[k]? = some t → k < (served gives newer).length → (served gives newer)[k]? = some t) ∧
      (s.vp.current = s.vp.idleThread → s.vp.runQ = []) := by
  have queues : Queues (machine E) (Started E) (fun s => s.vp.runQ) gives :=
    fun hist e before fired => (SysRun.settled before).queue fired
  have front : e.post.vp.runQ <+: served gives newer ++ s.vp.runQ := run.first_come queues
  refine ⟨front, fun k t here given => ?_, fun idle => ?_⟩
  · obtain ⟨later, whole⟩ := front
    have inside : k < e.post.vp.runQ.length := (List.getElem?_eq_some_iff.mp here).1
    calc
      (served gives newer)[k]? = (served gives newer ++ s.vp.runQ)[k]? := (List.getElem?_append_left given).symm
      _ = (e.post.vp.runQ ++ later)[k]? := by rw [whole]
      _ = e.post.vp.runQ[k]? := List.getElem?_append_left inside
      _ = some t := here
  · have settled := SysRun.settled run
    exact settled.empty ((settled.inv.views _).idle.mp (by simp [idle]))

/-- The primordial thread creates 2 and 3 and goes to sleep, and so does 2. -/
theorem run_queue_fair_two_created : ∃ newer e older s, SysRun (Poll.eventSys Poll.silent) (newer ++ e :: older) s ∧
    e.post.vp.runQ = [2, 3] ∧ served gives newer = [2, 3] ∧
    e.post.vp.runQ <+: served gives newer ++ s.vp.runQ ∧
      (∀ k t, e.post.vp.runQ[k]? = some t → k < (served gives newer).length → (served gives newer)[k]? = some t) ∧
      (s.vp.current = s.vp.idleThread → s.vp.runQ = []) := by
  obtain ⟨hist, s, run, seen⟩ := Run.found (M := machine (Poll.eventSys Poll.silent))
    [.call (.threadCreate (some 2) false none), .call (.threadCreate (some 3) false none), .call (.usleep 900), .resume,
      .call (.usleep 800)]
    Poll.started_ok
    (p := fun hist _ => decide (((hist.drop 3).head?.map fun e => e.post.vp.runQ) = some [2, 3] ∧
      served gives (hist.take 3) = [2, 3])) (by decide +kernel)
  obtain ⟨queue, order⟩ := of_decide_eq_true seen
  obtain ⟨e, first, queue⟩ := Option.map_eq_some_iff.mp queue
  obtain ⟨older, rest⟩ := List.head?_eq_some_iff.mp first
  rw [← List.take_append_drop 3 hist, rest] at run
  exact ⟨_, e, older, s, run, queue, order, run_queue_fair _ _ older e s run⟩

end StateThreads
