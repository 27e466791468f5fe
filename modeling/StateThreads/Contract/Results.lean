import StateThreads.Event.Scratch
import StateThreads.Contract.Agreement
import StateThreads.Contract.Clock

/-! What a dispatch of epoll makes of the bitsFor events, and what st_poll returns. -/
namespace StateThreads
open LabelledRun

namespace Epoll

variable {κ ω : Type} {K : Kernel κ ω}

/-- The entry with its result: what is reported, or the interest on an error or a
hang-up, as far as it is asked for, and the two conditions themselves. -/
def answered (events : List (Int × BitVec 32)) (interest : Int → BitVec 32) (pd : PollFd) : PollFd :=
  { pd with revents := (widened (bitsFor events pd.fd) (interest pd.fd)).setWidth 16 &&& pd.events |||
      (bitsFor events pd.fd).setWidth 16 &&& (pollErr ||| pollHup) }

/-- The bits for which an entry is notified. -/
def concerns (pd : PollFd) : BitVec 32 := pd.events.setWidth 32 ||| (epollErr ||| epollHup)

theorem and_bit (b : BitVec 32) (i : Nat) (inside : i < 16) :
    b &&& BitVec.twoPow 32 i ≠ 0 ↔ b.setWidth 16 &&& BitVec.twoPow 16 i ≠ 0 := by
  rw [and_twoPow_ne_zero _ _ (by omega), and_twoPow_ne_zero _ _ inside, BitVec.getLsbD_setWidth]
  simp [inside]

theorem and_setWidth (b : BitVec 32) (x : BitVec 16) : b &&& x.setWidth 32 ≠ 0 ↔ b.setWidth 16 &&& x ≠ 0 := by
  have whole : b &&& x.setWidth 32 = (b.setWidth 16 &&& x).setWidth 32 := by
    apply BitVec.eq_of_getLsbD_eq
    intro i inside
    simp only [BitVec.getLsbD_and, BitVec.getLsbD_setWidth, inside, decide_true, Bool.true_and]
    by_cases low : i < 16
    · simp [low]
    · simp [low, BitVec.getLsbD_of_ge x i (by omega)]
  rw [whole, not_iff_not]
  constructor
  · intro none
    have back := congrArg (BitVec.setWidth 16) none
    simpa using back
  · intro none
    rw [none]
    rfl

theorem passed_bit (b : BitVec 32) (i : Nat) (inside : i < 16) :
    (if b &&& BitVec.twoPow 32 i ≠ 0 then BitVec.twoPow 16 i else 0) = b.setWidth 16 &&& BitVec.twoPow 16 i := by
  rw [BitVec.and_twoPow (b.setWidth 16)]
  by_cases bit : (b.setWidth 16).getLsbD i = true
  · rw [if_pos bit, if_pos ((and_bit b i inside).mpr ((and_twoPow_ne_zero _ _ inside).mpr bit))]
  · rw [if_neg bit, if_neg fun some_ => bit ((and_twoPow_ne_zero _ _ inside).mp ((and_bit b i inside).mp some_))]
    rfl

theorem failure_bits (b : BitVec 32) :
    (if b &&& epollErr ≠ 0 then pollErr else 0) ||| (if b &&& epollHup ≠ 0 then pollHup else 0) =
      b.setWidth 16 &&& (pollErr ||| pollHup) := by
  have err : (if b &&& epollErr ≠ 0 then pollErr else 0) = b.setWidth 16 &&& pollErr := passed_bit b 3 (by omega)
  have hup : (if b &&& epollHup ≠ 0 then pollHup else 0) = b.setWidth 16 &&& pollHup := passed_bit b 4 (by omega)
  rw [err, hup, BitVec.and_or_distrib_left]

theorem Valid.result {pd : PollFd} (valid : Valid pd) (b : BitVec 32) :
    Epoll.result b pd = b.setWidth 16 &&& pd.events ||| b.setWidth 16 &&& (pollErr ||| pollHup) := by
  have read : b &&& epollIn ≠ 0 ↔ b.setWidth 16 &&& pollIn ≠ 0 := and_bit b 0 (by omega)
  have write : b &&& epollOut ≠ 0 ↔ b.setWidth 16 &&& pollOut ≠ 0 := and_bit b 2 (by omega)
  have except : b &&& epollPri ≠ 0 ↔ b.setWidth 16 &&& pollPri ≠ 0 := and_bit b 1 (by omega)
  rw [← failure_bits, BitVec.and_comm _ pd.events, valid.and_bits, Epoll.result]
  simp only [read, write, except]
  ac_rfl

theorem FdData.events_failures (x : FdData) : x.events.setWidth 16 &&& (pollErr ||| pollHup) = 0 := by
  unfold FdData.events
  split <;> split <;> split <;> decide

theorem widened_failures (bits : BitVec 32) (x : FdData) :
    (widened bits x.events).setWidth 16 &&& (pollErr ||| pollHup) = bits.setWidth 16 &&& (pollErr ||| pollHup) := by
  unfold widened
  split
  · rw [BitVec.setWidth_or, BitVec.and_comm, BitVec.and_or_distrib_left, BitVec.and_comm _ (x.events.setWidth 16),
      x.events_failures, BitVec.and_comm]
    exact BitVec.or_zero
  · rfl

theorem or_ne_zero {w : Nat} (x y : BitVec w) : x ||| y ≠ 0 ↔ x ≠ 0 ∨ y ≠ 0 := by
  have none : x ||| y = 0#w ↔ x = 0#w ∧ y = 0#w := BitVec.or_eq_zero_iff
  rw [ne_eq, show (x ||| y = 0) = (x ||| y = 0#w) from rfl, none, not_and_or]
  rfl

theorem answered_ne_zero (events : List (Int × BitVec 32)) (d : Data) (pd : PollFd) :
    (answered events d.mask pd).revents ≠ 0 ↔ bitsFor events pd.fd &&& concerns pd ≠ 0 := by
  have fails : bitsFor events pd.fd &&& (epollErr ||| epollHup) ≠ 0 ↔
      (bitsFor events pd.fd).setWidth 16 &&& (pollErr ||| pollHup) ≠ 0 := and_setWidth _ (pollErr ||| pollHup)
  simp only [answered]
  generalize bitsFor events pd.fd = bits at fails ⊢
  have parts : bits &&& concerns pd = bits &&& pd.events.setWidth 32 ||| bits &&& (epollErr ||| epollHup) :=
    BitVec.and_or_distrib_left
  rw [parts, or_ne_zero, or_ne_zero, and_setWidth]
  by_cases failed : bits &&& (epollErr ||| epollHup) ≠ 0
  · exact iff_of_true (.inr (fails.mp failed)) (.inr failed)
  · have plain : widened bits (d.mask pd.fd) = bits := if_neg failed
    rw [plain, ← fails]

theorem Valid.look {pd : PollFd} (valid : Valid pd) {events : List (Int × BitVec 32)} {d d₀ : Data}
    (scratch : ∀ fd, (d.fdData fd).revents = widened (bitsFor events fd) (d₀.mask fd)) :
    Epoll.look d pd = answered events d₀.mask pd := by
  have bits := scratch pd.fd
  unfold Epoll.look answered
  split
  · rename_i none
    rw [none] at bits
    have nothing : bitsFor events pd.fd = 0 := by
      by_contra some_
      unfold widened at bits
      split at bits
      · exact some_ (BitVec.or_eq_zero_iff.mp bits.symm).1
      · exact some_ bits.symm
    rw [nothing, widened_zero]
    simp
  · rw [valid.result, bits, Data.mask, widened_failures]

structure Quiescent (s : System (State κ)) : Prop where
  settled : Settled s.vp
  silent : Silent s.evt.data
  valid : ∀ t ∈ s.vp.ioQ, ∀ pd ∈ (s.vp.pollq t).pds, Valid pd

structure DispatchResults (events : List (Int × BitVec 32)) (interest : Int → BitVec 32) (vp vp' : Vp) : Prop where
  woken : ∀ t ∈ vp.ioQ, t ∉ vp'.ioQ ↔ ∃ pd ∈ (vp.pollq t).pds, bitsFor events pd.fd &&& concerns pd ≠ 0
  results : ∀ t ∈ vp.ioQ, t ∉ vp'.ioQ → vp'.pollq t = ⟨(vp.pollq t).pds.map (answered events interest), false⟩ ∧
    vp'.thr t = { vp.thr t with state := .runnable } ∧ vp'.sleepQ.onSleepq t = false
  order : vp'.runQ = vp.runQ ++ vp.ioQ.filter fun t => t ∉ vp'.ioQ
  once : vp'.runQ.Nodup
  stays : vp'.ioQ.Sublist vp.ioQ ∧ ∀ t ∈ vp'.ioQ, (vp'.pollq t).onIoq = true ∧ vp'.thr t = vp.thr t ∧
    vp'.sleepQ.onSleepq t = vp.sleepQ.onSleepq t
  others : ∀ t, t ∉ vp.ioQ → vp'.pollq t = vp.pollq t ∧ vp'.thr t = vp.thr t ∧
    vp'.sleepQ.onSleepq t = vp.sleepQ.onSleepq t

theorem DispatchResults.none (interest : Int → BitVec 32) {vp : Vp} (settled : Settled vp) :
    DispatchResults [] interest vp vp where
  woken t queued := by simp [bitsFor, queued]
  results t queued away := absurd queued away
  order := by simp
  once := settled.inv.runQ_nodup
  stays := ⟨List.Sublist.refl _, fun t queued => ⟨(settled.inv.ioQ_context queued).2, rfl, rfl⟩⟩
  others _ _ := ⟨rfl, rfl, rfl⟩

theorem DispatchResults.of_visited {events : List (Int × BitVec 32)} {d d₀ : Data} {vp vp' : Vp} {f : Tid → List PollFd × Bool}
    (settled : Settled vp) (once : vp'.runQ.Nodup) (valid : ∀ t ∈ vp.ioQ, ∀ pd ∈ (vp.pollq t).pds, Valid pd)
    (scratch : ∀ fd, (d.fdData fd).revents = widened (bitsFor events fd) (d₀.mask fd))
    (found : ∀ t ∈ vp.ioQ, f t = ((vp.pollq t).pds.map (Epoll.look d),
      ((vp.pollq t).pds.map (Epoll.look d)).any fun pd => pd.revents ≠ 0))
    (visited : Visited vp vp.ioQ f vp') : DispatchResults events d₀.mask vp vp' := by
  have looks : ∀ t ∈ vp.ioQ, (f t).1 = (vp.pollq t).pds.map (answered events d₀.mask) := by
    intro t queued
    rw [found t queued]
    exact List.map_congr_left fun pd member => (valid t queued pd member).look scratch
  have hits : ∀ t ∈ vp.ioQ, (f t).2 = true ↔ ∃ pd ∈ (vp.pollq t).pds, bitsFor events pd.fd &&& concerns pd ≠ 0 := by
    intro t queued
    have same : (f t).2 = (f t).1.any fun pd => pd.revents ≠ 0 := by rw [found t queued]
    rw [same, looks t queued]
    simp only [List.any_eq_true, List.mem_map, decide_eq_true_eq]
    constructor
    · rintro ⟨-, ⟨pd, member, rfl⟩, some_⟩
      exact ⟨pd, member, (answered_ne_zero events d₀ pd).mp some_⟩
    · rintro ⟨pd, member, some_⟩
      exact ⟨_, ⟨pd, member, rfl⟩, (answered_ne_zero events d₀ pd).mpr some_⟩
  have quiet : ∀ t, t ∉ notifiedOf vp.ioQ f → vp'.thr t = vp.thr t ∧ vp'.sleepQ.onSleepq t = vp.sleepQ.onSleepq t := by
    intro t away
    rw [visited.dispatched.thr, if_neg away, visited.dispatched.off]
    simp [away]
  constructor
  case woken =>
    intro t queued
    rw [visited.off queued, hits t queued]
  case results =>
    intro t queued away
    have hit := (visited.off queued).mp away
    obtain ⟨told, runs⟩ := visited.woken queued hit
    rw [told, looks t queued, visited.dispatched.off]
    exact ⟨rfl, runs, by simp [mem_notifiedOf, queued, hit]⟩
  case order => exact visited.order
  case once => exact once
  case stays =>
    refine ⟨visited.queue, fun t still => ?_⟩
    have queued := visited.queue.subset still
    obtain ⟨none, told, -⟩ := visited.left still
    refine ⟨?_, quiet t (by simp [mem_notifiedOf, none])⟩
    rw [told]
    exact (settled.inv.ioQ_context queued).2
  case others =>
    intro t away
    exact ⟨visited.others t away, quiet t fun hit => away (mem_notifiedOf.mp hit).1⟩

theorem Quiescent.dispatch (created : κ → Int → Prop) {s : System (State κ)} (quiescent : Quiescent s)
    (idle : (s.vp.thr s.vp.current).context = .idle) {s₀ : State κ}
    (asks : Asks K s.evt (s.vp.ioQ.map fun t => (s.vp.pollq t).pds) s₀) {events : List (Int × BitVec 32)}
    (answer : (K.epollWait s₀.kern s₀.data.epfd s₀.data.evtlistSize (msTimeout (minTimeout s.vp))).2 = events)
    (distinct : (events.map Prod.fst).Nodup) :
    ∃ evt' vp', StateThreads.dispatch (eventSys K created) s.evt s.vp = some (evt', vp') ∧
      DispatchResults events s₀.data.mask s.vp vp' ∧ Silent evt'.data := by
  have settled := quiescent.settled
  have waited : (eventSys K created).wait s.evt (minTimeout s.vp) (s.vp.ioQ.map fun t => (s.vp.pollq t).pds) =
      some (epollWait K s₀ (msTimeout (minTimeout s.vp))) := asks.wait _
  have scratch := epollWait_revents (asks.silent quiescent.silent) answer distinct
  have found : (epollWait K s₀ (msTimeout (minTimeout s.vp))).2 = decide (events ≠ []) := by rw [← answer]; rfl
  have after := wait_marked quiescent.silent waited
  obtain ⟨evt', vp', -, run, inv, -⟩ := dispatch_run (eventSys K created) settled.inv idle (settled.empty idle)
    (by rw [waited]; rfl)
  refine ⟨evt', vp', run, ?_, ?_⟩
  · simp only [StateThreads.dispatch, waited, Option.bind_eq_bind, Option.bind_some, found] at run
    by_cases none : events = []
    · simp only [none, ne_eq, not_true_eq_false, decide_false, Bool.false_eq_true, if_false] at run
      cases run
      rw [none]
      exact .none _ settled
    · simp only [none, ne_eq, not_false_eq_true, decide_true, if_true, Option.bind_eq_some_iff] at run
      obtain ⟨⟨evt₁, vp₁⟩, walked, run⟩ := run
      cases run
      obtain ⟨-, f, told, visited⟩ := dispatchLoop_found settled.inv idle (settled.empty idle) walked
      rw [findings_look created _ _ _ fun fd => rfl, List.map_map] at told
      exact .of_visited settled inv.runQ_nodup quiescent.valid scratch (List.map_inj_left.mp told) visited
  · simp only [StateThreads.dispatch, waited, Option.bind_eq_bind, Option.bind_some] at run
    exact (eventSys_silent K created).walked settled idle after run

end Epoll

variable {σ ω : Type}

def sinceCall (hist : List (SysEvent σ ω)) (t : Tid) : List (SysEvent σ ω) :=
  hist.takeWhile fun e => !(e.actor = t && e.label.isCall)

/-- A dispatch takes the pollq of t off io_q, with the given entries. -/
def WokenIn (E : EventSys σ ω) (e : SysEvent σ ω) (t : Tid) (pds : List PollFd) : Prop :=
  ∃ now time evt vp, e.label = .idle now time ∧ dispatch E e.pre.evt e.pre.vp = some (evt, vp) ∧
    t ∈ e.pre.vp.ioQ ∧ t ∉ vp.ioQ ∧ (vp.pollq t).pds = pds

/-- The clock check after a dispatch takes t off the heap, since its time is over. -/
def ExpiredIn (E : EventSys σ ω) (e : SysEvent σ ω) (t : Tid) : Prop :=
  ∃ now time evt vp vp', e.label = .idle now time ∧ dispatch E e.pre.evt e.pre.vp = some (evt, vp) ∧
    stVpCheckClock vp now time = some vp' ∧ vp.sleepQ.onSleepq t = true ∧ vp.sleepQ.due t ≤ now ∧
    vp'.sleepQ.onSleepq t = false

structure PollStory (E : EventSys σ ω) (hist : List (SysEvent σ ω)) (vp : Vp) (t : Tid) : Prop where
  woken : ∀ d ∈ sinceCall hist t, ∀ pds, WokenIn E d t pds → vp.pollq t = ⟨pds, false⟩
  expired : (vp.thr t).state ≠ .ioWait → (vp.pollq t).onIoq = true →
    (vp.thr t).flags.interrupt = true ∨ ∃ d ∈ sinceCall hist t, ExpiredIn E d t

variable {E : EventSys σ ω} {hist older : List (SysEvent σ ω)} {s : System σ} {e : SysEvent σ ω} {t : Tid}

theorem sinceCall_call (acts : e.actor = t) (call : e.label.isCall = true) : sinceCall (e :: hist) t = [] := by
  simp [sinceCall, acts, call]

theorem sinceCall_cons (other : e.actor = t → e.label.isCall = false) :
    sinceCall (e :: hist) t = e :: sinceCall hist t := by
  unfold sinceCall
  rw [List.takeWhile_cons_of_pos]
  by_cases acts : e.actor = t
  · simp [other acts]
  · simp [acts]

theorem dispatch_visited {evt evt' : σ} {vp vp' : Vp} (settled : Settled vp) (idle : (vp.thr vp.current).context = .idle)
    (run : dispatch E evt vp = some (evt', vp')) : ∃ f, Visited vp vp.ioQ f vp' := by
  simp only [dispatch, Option.bind_eq_bind, Option.bind_eq_some_iff] at run
  obtain ⟨⟨evt₁, found⟩, -, run⟩ := run
  cases found with
  | false =>
    cases run
    have none : notifiedOf vp.ioQ (fun t => ((vp.pollq t).pds, false)) = [] := by simp [notifiedOf]
    refine ⟨fun t => ((vp.pollq t).pds, false), ?_⟩
    constructor
    · rw [none]
      exact .none vp
    · simp [none]
    · rw [none]
      rfl
    · simp
    · simp
  | true =>
    simp only [if_true, Option.bind_eq_some_iff] at run
    obtain ⟨⟨evt₂, vp₁⟩, walked, run⟩ := run
    cases run
    obtain ⟨-, f, -, visited⟩ := dispatchLoop_found settled.inv idle (settled.empty idle) walked
    exact ⟨f, visited⟩

theorem switchContext_picked {vp vp' : Vp} {context : Context} {out : Option Ret}
    (run : switchContext vp context = some (vp', out)) (other : t ≠ vp.current) : Picked (vp.thr t) (vp'.thr t) := by
  simp only [switchContext, stVpSchedule, Option.bind_eq_bind, Option.bind_eq_some_iff, Option.some.injEq] at run
  obtain ⟨vp₁, chosen, same⟩ := run
  obtain ⟨rfl, -⟩ := Prod.mk.inj same
  split at chosen
  · rename_i runnable
    cases chosen
    simp only [Vp.setState, Vp.setContext, Vp.setThr] at runnable ⊢
    by_cases next : t = (nextThread (vp.setContext vp.current context)).1
    · simp only [Vp.setContext, Vp.setThr] at next
      rw [← next] at runnable ⊢
      simp only [Function.update_self, Function.update_of_ne other] at runnable ⊢
      exact .chosen runnable
    · simp only [Vp.setContext, Vp.setThr] at next
      simp only [Function.update_of_ne next, Function.update_of_ne other]
      exact .same
  · cases chosen

theorem Stepped.idleParts {now : UTime} {time : Nat} (stepped : Stepped e) (fired : e.Fired (machine E))
    (cause : e.label = .idle now time) :
    ∃ evt vp vp' ts, (e.pre.vp.thr e.actor).context = .idle ∧ dispatch E e.pre.evt e.pre.vp = some (evt, vp) ∧
      stVpCheckClock vp now time = some vp' ∧ ClockChecked vp now ts vp' ∧ e.post.vp.io = vp.io ∧
      ∀ t, t ≠ e.actor → Picked (vp'.thr t) (e.post.vp.thr t) := by
  have run := fired.step
  have enabled := fired.enabled
  simp only [machine, cause, StateThreads.enabled, Bool.and_eq_true, decide_eq_true_eq] at enabled
  simp only [machine, cause, StateThreads.step, stIdleTurn, Option.bind_eq_bind, Option.bind_eq_some_iff] at run
  obtain ⟨⟨evt, vp⟩, dispatched, vp', clock, ⟨vp₃, out'⟩, switched, run⟩ := run
  obtain ⟨evt', vp₁, ts, run₁, inv, moved⟩ := dispatch_run E stepped.pre.inv enabled.1.1 (stepped.pre.empty enabled.1.1)
    enabled.2
  obtain ⟨-, rfl⟩ := Prod.mk.inj (Option.some.inj (dispatched.symm.trans run₁))
  obtain ⟨vp₂, ts', clock', checked⟩ := stVpCheckClock_checked inv now time
  obtain rfl := Option.some.inj (clock.symm.trans clock')
  obtain ⟨post, -⟩ := Prod.mk.inj (Option.some.inj run)
  have current : vp'.current = e.actor := by
    have first := congrArg Vp.current moved.rest
    have second := congrArg Vp.current checked.rest
    exact second.trans first
  refine ⟨evt, vp, vp', ts', enabled.1.1, dispatched, clock, checked, ?_, fun t other => ?_⟩
  · rw [← post]
    exact (switchContext_io switched).1.trans (show vp'.io = _ from stVpCheckClock_io clock)
  · rw [← post]
    have picked := switchContext_picked switched (t := t) (by
      intro same
      exact other (same.trans current))
    simpa [Vp.setState, Vp.setThr, show t ≠ e.pre.vp.current from other] using picked

theorem Stepped.running (stepped : Stepped e) : (e.pre.vp.thr e.actor).state = .running := by
  have ok := (stepped.pre.inv.views e.actor).running.mp (by simp [Vp.view, SysEvent.actor])
  exact ok.2

section
variable (stepped : Stepped e) (fired : e.Fired (machine E)) (held : (e.pre.vp.thr t).context = .poll)
include stepped held

theorem Stepped.pollsQuiet (acts : e.actor = t) : e.label.isCall = false := by
  cases cause : e.label with
  | call op =>
    rw [← acts, stepped.user op cause] at held
    cases held
  | _ => rfl

theorem Stepped.pollResumes (cause : e.label = .resume) (acts : e.actor = t) : (e.post.vp.thr t).context = .user := by
  subst acts
  have place : (e.pre.vp.thr e.pre.vp.current).context = .poll := held
  obtain ⟨th, acted, picked⟩ := stepped.self
  rw [picked.context]
  cases acted with
  | same _ _ call => exact absurd cause call
  | began | returned => rfl
  | rejoined _ place' | ended _ place' =>
    rw [place] at place'
    cases place'
  | cleared cause' | flagged cause' | died cause' | left cause' | idled cause' =>
    rw [cause] at cause'
    cases cause'
  | parked where_ =>
    rw [cause] at where_
    cases where_

theorem Stepped.pollWindow : sinceCall (e :: hist) t = e :: sinceCall hist t :=
  sinceCall_cons (stepped.pollsQuiet held)

include fired

theorem Stepped.pollqKept (off : (e.pre.vp.pollq t).onIoq = false) : e.post.vp.pollq t = e.pre.vp.pollq t := by
  by_cases idles : ∃ now time, e.label = .idle now time
  · obtain ⟨now, time, cause⟩ := idles
    obtain ⟨evt, vp, vp', ts, idle, dispatched, -, -, same, -⟩ := stepped.idleParts fired cause
    obtain ⟨f, visited⟩ := dispatch_visited stepped.pre idle dispatched
    rw [(Prod.mk.inj same).2]
    apply visited.others
    intro queued
    rw [(stepped.pre.inv.ioQ_context queued).2] at off
    cases off
  · obtain ⟨vp', switch, post, move, -⟩ := stepped.move
    have records : e.post.vp.pollq = vp'.pollq := by
      rw [post]
      exact (Prod.mk.inj (vp'.after_io switch)).2
    rw [records]
    obtain same | ⟨rfl, -, call⟩ := move.told (fun now time cause => idles ⟨now, time, cause⟩) t
    · exact same
    · rw [stepped.pollsQuiet held rfl] at call
      cases call

theorem Stepped.pollExpires (waits : (e.pre.vp.thr t).state = .ioWait) (awake : (e.post.vp.thr t).state ≠ .ioWait)
    (on : (e.post.vp.pollq t).onIoq = true) :
    (e.post.vp.thr t).flags.interrupt = true ∨ ExpiredIn E e t := by
  have other : t ≠ e.actor := by
    rintro rfl
    rw [stepped.running] at waits
    cases waits
  by_cases idles : ∃ now time, e.label = .idle now time
  · obtain ⟨now, time, cause⟩ := idles
    obtain ⟨evt, vp, vp', ts, idle, dispatched, clock, checked, same, picked⟩ := stepped.idleParts fired cause
    obtain ⟨f, visited⟩ := dispatch_visited stepped.pre idle dispatched
    have queued : t ∈ e.pre.vp.ioQ := stepped.pre.inv.ioQ_iff.mpr ⟨held, (stepped.pre.inv.linked_poll ⟨held, waits⟩).1⟩
    rw [(Prod.mk.inj same).2] at on
    have quiet : (f t).2 = false := by
      by_contra hit
      rw [(visited.woken queued (by simpa using hit)).1] at on
      cases on
    have still : vp.thr t = e.pre.vp.thr t := by
      rw [visited.dispatched.thr, if_neg]
      simp [mem_notifiedOf, quiet]
    have expired : t ∈ ts := by
      by_contra late
      apply awake
      rw [(picked t other).state (by simp), (checked.others t late).1, still]
      exact waits
    obtain ⟨armed, due⟩ := (checked.expired t).mp expired
    exact .inr ⟨now, time, evt, vp, vp', cause, dispatched, clock, armed, due, (checked.woken t expired).1⟩
  · obtain ⟨th, touched, picked⟩ := stepped.other t other
    rw [ne_eq, picked.state (by simp)] at awake
    rw [picked.flags]
    cases touched with
    | same => exact absurd waits awake
    | woken live blocked why =>
      cases why with
      | signal state => rw [waits] at state; cases state
      | interrupt => exact .inl rfl
      | handOver cause place state => rw [waits] at state; cases state
      | ready cause => exact absurd ⟨_, _, cause⟩ idles
      | timer cause => exact absurd ⟨_, _, cause⟩ idles
    | flagged => exact .inl rfl
    | reaped zombie => rw [waits] at zombie; cases zombie
    | created cause unborn => rw [held] at unborn; cases unborn

end

theorem PollStory.step (stepped : Stepped e) (fired : e.Fired (machine E))
    (before : (e.pre.vp.thr t).context = .poll → PollStory E hist e.pre.vp t) (place : (e.post.vp.thr t).context = .poll) :
    PollStory E (e :: hist) e.post.vp t := by
  obtain held | ⟨rfl, waits, call⟩ := stepped.pollPlace place
  · obtain ⟨woken, expired⟩ := before held
    have window : sinceCall (e :: hist) t = e :: sinceCall hist t := stepped.pollWindow held
    constructor
    case woken =>
      rw [window]
      intro d member pds hit
      obtain rfl | member := List.mem_cons.mp member
      · obtain ⟨now, time, evt, vp, cause, dispatched, queued, away, entries⟩ := hit
        obtain ⟨evt', vp₁, -, -, idle, run, -, -, same, -⟩ := stepped.idleParts fired cause
        obtain ⟨-, rfl⟩ := Prod.mk.inj (Option.some.inj (dispatched.symm.trans run))
        obtain ⟨f, visited⟩ := dispatch_visited stepped.pre idle dispatched
        have told := (visited.woken queued ((visited.off queued).mp away)).1
        rw [(Prod.mk.inj same).2, ← entries, told]
      · have off := woken d member pds hit
        rw [stepped.pollqKept fired held (by rw [off]), off]
    case expired =>
      intro awake on
      rw [window]
      by_cases waits : (e.pre.vp.thr t).state = .ioWait
      · obtain flag | late := stepped.pollExpires fired held waits awake on
        · exact .inl flag
        · exact .inr ⟨e, List.mem_cons_self .., late⟩
      · have on' : (e.pre.vp.pollq t).onIoq = true := by
          by_contra off
          rw [stepped.pollqKept fired held (by simpa using off)] at on
          exact off on
        have goes : t = e.actor → e.label ≠ .resume := by
          rintro rfl cause
          rw [stepped.pollResumes held cause rfl] at place
          cases place
        have awake' : (e.pre.vp.thr t).state = .runnable ∨ (e.pre.vp.thr t).state = .running := by
          have fits := (stepped.pre.inv.views t).fits
          simpa [Vp.view_thread, held, Context.fits, waits] using fits
        obtain ⟨-, -, flags⟩ := stepped.stays awake' (by rw [held]; rfl) goes
        obtain flag | ⟨d, member, late⟩ := expired waits on'
        · obtain same | ⟨-, set⟩ := flags
          · rw [same]
            exact .inl flag
          · rw [set]
            exact .inl rfl
        · exact .inr ⟨d, List.mem_cons_of_mem _ member, late⟩
  · constructor
    case woken =>
      rw [sinceCall_call rfl call]
      simp
    case expired =>
      intro awake
      exact absurd waits awake

theorem SysRun.pollStory (run : SysRun E hist s) (place : (s.vp.thr t).context = .poll) : PollStory E hist s.vp t := by
  refine run.induct (P := fun hist s => (s.vp.thr t).context = .poll → PollStory E hist s.vp t) ?_ ?_ place
  · intro s started place
    have outside := started.blank.place t
    rw [place] at outside
    cases outside
  · intro hist e before story fired place
    exact PollStory.step (SysRun.stepped before fired) fired story place

/-- What a call of st_poll returns: the number of entries with a result, when a dispatch
has woken its thread and no interrupt has come; and zero only after its time is over. -/
structure PollReturned (E : EventSys σ ω) (older : List (SysEvent σ ω)) (e : SysEvent σ ω) (r : Ret) : Prop where
  woken : ∀ d ∈ sinceCall (e :: older) e.actor, ∀ pds, WokenIn E d e.actor pds →
    (e.pre.vp.thr e.actor).flags.interrupt = false → r = .value (readyCount pds) ∧ 1 ≤ readyCount pds
  zero : r = .value 0 → ∃ d ∈ sinceCall (e :: older) e.actor, ExpiredIn E d e.actor

theorem readyCount_pos {pds : List PollFd} (some_ : ∃ pd ∈ pds, pd.revents ≠ 0) : 1 ≤ readyCount pds := by
  obtain ⟨pd, member, result⟩ := some_
  exact List.countP_pos_iff.mpr ⟨pd, member, by simpa using result⟩

theorem stPollResume_out {s s' : System σ} {out : Option Ret} (run : stPollResume E s = some (s', out)) :
    out = some (if (s.vp.thr s.vp.current).flags.interrupt then .fail .eintr
      else .value (if (s.vp.pollq s.vp.current).onIoq then 0 else readyCount (s.vp.pollq s.vp.current).pds)) := by
  have flagTest : ∀ {vp vp' : Vp} {n : Nat} {out : Option Ret}, pollReturn vp n = some (vp', out) →
      out = some (if (vp.thr vp.current).flags.interrupt then .fail .eintr else .value n) := by
    intro vp vp' n out run
    simp only [pollReturn, Vp.setContext, Vp.setThr, Function.update_self] at run
    split at run
    · rename_i flag
      cases run
      rw [if_pos flag]
    · rename_i flag
      cases run
      rw [if_neg flag]
  simp only [stPollResume] at run
  split at run
  · rename_i on
    simp only [Option.bind_eq_bind, Option.bind_eq_some_iff] at run
    obtain ⟨vp₁, taken, ⟨vp₂, out'⟩, returned, run⟩ := run
    cases run
    unfold Vp.delIoq at taken
    split at taken
    · cases taken
      rw [flagTest returned, if_pos on]
    · cases taken
  · rename_i off
    simp only [Option.bind_eq_bind, Option.bind_eq_some_iff] at run
    obtain ⟨⟨vp₂, out'⟩, returned, run⟩ := run
    cases run
    rw [flagTest returned, if_neg off]

theorem stPoll_fails {s s' : System σ} {pds : List PollFd} {timeout : UTime} {r : Ret}
    (run : stPoll E s pds timeout = some (s', some r)) : ∃ error, r = .fail error := by
  simp only [stPoll] at run
  split at run
  · simp only [Vp.eintr, Option.map_some, Option.some.injEq] at run
    cases run
    exact ⟨_, rfl⟩
  · simp only [Option.bind_eq_bind, Option.bind_eq_some_iff] at run
    obtain ⟨⟨evt, error⟩, -, run⟩ := run
    cases error with
    | some error =>
      cases run
      exact ⟨_, rfl⟩
    | none =>
      simp only [Option.bind_eq_some_iff] at run
      obtain ⟨vp₁, -, vp₂, -, ⟨vp₃, out⟩, switched, run⟩ := run
      rw [(switchContext_io switched).2] at run
      cases run

theorem SysRun.pollReturned (tells : Tells E) (run : SysRun E older e.pre) (fired : e.Fired (machine E)) {pds : List PollFd}
    {timeout : UTime} {r : Ret} {b : SysEvent σ ω} (done : Completes older e (.poll pds timeout) r b) :
    PollReturned E older e r := by
  have step := fired.step
  have stepped := SysRun.stepped run fired
  have out := done.out
  obtain ⟨cause, -⟩ | ⟨cause, waits, -⟩ := done.cases run fired
  · constructor
    case woken =>
      rw [sinceCall_call rfl (by rw [cause]; rfl)]
      simp
    case zero =>
      simp only [machine, cause, StateThreads.step, call, out] at step
      obtain ⟨error, failed⟩ := stPoll_fails step
      rw [failed]
      simp
  · have place : (e.pre.vp.thr e.actor).context = .poll := by
      cases context : (e.pre.vp.thr e.actor).context <;> simp_all [Op.waitsAt]
    have here : (e.pre.vp.thr e.pre.vp.current).context = .poll := place
    simp only [machine, cause, StateThreads.step, resume, here] at step
    have result := stPollResume_out step
    rw [out] at result
    have result := Option.some.inj result
    obtain ⟨woken, expired⟩ := run.pollStory place
    constructor
    case woken =>
      rw [stepped.pollWindow place]
      intro d member entries hit flag
      obtain rfl | member := List.mem_cons.mp member
      · obtain ⟨now, time, _, _, idles, -⟩ := hit
        rw [cause] at idles
        cases idles
      · have told : e.pre.vp.pollq e.pre.vp.current = ⟨entries, false⟩ := woken d member entries hit
        have flag : (e.pre.vp.thr e.pre.vp.current).flags.interrupt = false := flag
        have positive := readyCount_pos (run.told tells e.actor place (by rw [SysEvent.actor, told]))
        rw [SysEvent.actor, told] at positive
        rw [flag, told] at result
        exact ⟨result, positive⟩
    case zero =>
      rintro rfl
      rw [stepped.pollWindow place]
      cases flag : (e.pre.vp.thr e.pre.vp.current).flags.interrupt with
      | true =>
        rw [flag] at result
        cases result
      | false =>
        cases on : (e.pre.vp.pollq e.pre.vp.current).onIoq with
        | false =>
          have positive := readyCount_pos (run.told tells e.actor place on)
          rw [flag, on] at result
          have none : 0 = readyCount (e.pre.vp.pollq e.actor).pds := Ret.value.inj result
          omega
        | true =>
          have awake : (e.pre.vp.thr e.actor).state ≠ .ioWait := by rw [stepped.running]; simp
          obtain set | ⟨d, member, late⟩ := expired awake on
          · rw [SysEvent.actor, flag] at set
            cases set
          · exact ⟨d, List.mem_cons_of_mem _ member, late⟩

variable {κ : Type}

/-- The dispatch of epoll and the results of st_poll, at the end of a run and during it.
The interest in a descriptor is the one that the table holds when epoll_wait is called. -/
structure EpollResults (K : Epoll.Kernel κ ω) (created : κ → Int → Prop) (hist : List (SysEvent (Epoll.State κ) ω))
    (s : System (Epoll.State κ)) : Prop where
  quiescent : Epoll.Quiescent s
  dispatches : (s.vp.thr s.vp.current).context = .idle → ∀ s₀ events,
    Epoll.Asks K s.evt (s.vp.ioQ.map fun t => (s.vp.pollq t).pds) s₀ →
    (K.epollWait s₀.kern s₀.data.epfd s₀.data.evtlistSize (msTimeout (minTimeout s.vp))).2 = events →
    (events.map Prod.fst).Nodup → ∃ evt' vp', dispatch (Epoll.eventSys K created) s.evt s.vp = some (evt', vp') ∧
      Epoll.DispatchResults events s₀.data.mask s.vp vp' ∧ Epoll.Silent evt'.data
  returns : ∀ e older pds timeout r b, (e :: older) <:+ hist → Completes older e (.poll pds timeout) r b →
    PollReturned (Epoll.eventSys K created) older e r

theorem Epoll.quiescent (K : Epoll.Kernel κ ω) (created : κ → Int → Prop) {hist : List (SysEvent (Epoll.State κ) ω)}
    {s : System (Epoll.State κ)} (run : SysRun (Epoll.eventSys K created) hist s) : Epoll.Quiescent s where
  settled := run.settled
  silent := (Epoll.eventSys_silent K created).run run fun _ _ => trivial
  valid t queued pd member := by
    have inside := (Epoll.eventSys_inside K created).run run fun _ _ => trivial
    exact (inside.2 pd (List.mem_flatMap.mpr ⟨t, queued, member⟩)).1

/-- Whatever the kernel answers: a dispatch wakes exactly the threads that the reported
events concern, in the order of io_q and with the right results, and leaves no scratch bits;
and st_poll returns what its thread was woken with. -/
theorem epoll_results (K : Epoll.Kernel κ ω) (created : κ → Int → Prop) (hist : List (SysEvent (Epoll.State κ) ω))
    (s : System (Epoll.State κ)) (run : SysRun (Epoll.eventSys K created) hist s) : EpollResults K created hist s where
  quiescent := Epoll.quiescent K created run
  dispatches idle s₀ events asks answer distinct :=
    (Epoll.quiescent K created run).dispatch created idle asks answer distinct
  returns e older pds timeout r b past done := by
    obtain ⟨before, fired⟩ := SysRun.before run past
    exact before.pollReturned (Epoll.tells K created) fired done

/-- Threads 2, 3 and 4 poll, 2 has been woken by a hang-up on descriptor 6 and polls again.
An error on descriptor 5 wakes 3 and 4 in the next dispatch. -/
theorem epoll_results_error_wakes_both :
    ∃ hist s, SysRun (Epoll.eventSys Epoll.scripted Epoll.startsEmpty) hist s ∧
      (s.vp.ioQ = [3, 4, 2] ∧ (hist.any fun e => e.out = some (.value 1)) = true ∧
        ((dispatch (Epoll.eventSys Epoll.scripted Epoll.startsEmpty) s.evt s.vp).any fun r =>
          r.2.runQ = [3, 4] && r.2.ioQ = [2] &&
            (r.2.pollq 4).pds = [⟨5, pollIn, pollIn ||| pollErr⟩]) = true) ∧
      EpollResults Epoll.scripted Epoll.startsEmpty hist s := by
  obtain ⟨hist, s, run, seen⟩ := Run.found (M := machine (Epoll.eventSys Epoll.scripted Epoll.startsEmpty))
    [.call (.threadCreate (some 2) false none), .call (.threadCreate (some 3) false none),
      .call (.threadCreate (some 4) false none), .call (.usleep 9000), .resume, .call (.poll [⟨6, pollIn, 0⟩] 900),
      .resume, .call (.poll [⟨5, pollIn, 0⟩, ⟨5, pollOut, 0⟩] 900), .resume, .call (.poll [⟨5, pollIn, 0⟩] 900),
      .outside [(6, Epoll.epollIn ||| Epoll.epollHup)], .idle 600 0, .resume, .call (.poll [⟨6, pollIn, 0⟩] 900),
      .outside [(5, Epoll.epollOut ||| Epoll.epollErr)]]
    Epoll.started_ok
    (p := fun hist s => decide (s.vp.ioQ = [3, 4, 2] ∧ (hist.any fun e => e.out = some (.value 1)) = true ∧
        ((dispatch (Epoll.eventSys Epoll.scripted Epoll.startsEmpty) s.evt s.vp).any fun r =>
          r.2.runQ = [3, 4] && r.2.ioQ = [2] &&
            (r.2.pollq 4).pds = [⟨5, pollIn, pollIn ||| pollErr⟩]) = true))
    (by decide +kernel)
  exact ⟨hist, s, run, of_decide_eq_true seen, epoll_results _ _ hist s run⟩

end StateThreads
