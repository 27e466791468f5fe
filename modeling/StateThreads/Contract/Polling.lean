import StateThreads.Event.Accounts

/-! io_q and the epoll reference counts over whole runs. -/
namespace StateThreads
open LabelledRun

variable {σ ω : Type}

def Told (who : Tid → Prop) (pollq : Tid → PollQ) : Prop :=
  ∀ t, who t → (pollq t).onIoq = false → ∃ pd ∈ (pollq t).pds, pd.revents ≠ 0

def Vp.InPoll (vp : Vp) (t : Tid) : Prop := (vp.thr t).context = .poll

def Tells (E : EventSys σ ω) : Prop :=
  ∀ evt pds, (E.visit evt pds).2.2 = true → ∃ pd ∈ (E.visit evt pds).2.1, pd.revents ≠ 0

theorem Tells.findings {E : EventSys σ ω} (tells : Tells E) (todo : List (List PollFd)) (evt : σ) :
    ∀ r ∈ findings E todo evt, r.2 = true → ∃ pd ∈ r.1, pd.revents ≠ 0 := by
  induction todo generalizing evt with
  | nil => simp [StateThreads.findings]
  | cons pds todo ih =>
    intro r member notified
    rw [findings_cons] at member
    obtain rfl | later := List.mem_cons.mp member
    · exact tells evt pds notified
    · exact ih _ r later notified

theorem Told.walk {E : EventSys σ ω} (tells : Tells E) {who : Tid → Prop} {evt evt' : σ} {vp vp' : Vp}
    (settled : Settled vp) (idle : (vp.thr vp.current).context = .idle)
    (run : dispatchLoop E vp.ioQ evt vp = some (evt', vp')) (told : Told who vp.pollq) : Told who vp'.pollq := by
  obtain ⟨-, f, found, visited⟩ := dispatchLoop_found settled.inv idle (settled.empty idle) run
  intro t place off
  by_cases queued : t ∈ vp.ioQ
  · rw [visited.told t queued] at off ⊢
    have on := (settled.inv.ioQ_context queued).2
    have hit : (f t).2 = true := by simpa [on] using off
    exact tells.findings _ _ (f t) (found ▸ List.mem_map_of_mem queued) hit
  · rw [visited.others t queued] at off ⊢
    exact told t place off

theorem Move.told {vp vp' : Vp} {l : Label ω} {out : Option Ret} {switch : Bool} (move : Move vp l vp' out switch)
    (noIdle : ∀ now time, l ≠ .idle now time) (t : Tid) :
    vp'.pollq t = vp.pollq t ∨ t = vp.current ∧ (vp'.pollq t).onIoq = true ∧ l.isCall = true := by
  cases move with
  | polls =>
    by_cases h : t = vp.current
    · subst h; exact .inr ⟨rfl, by simp [Vp.polling, Vp.parked], rfl⟩
    · exact .inl (by simp [Vp.polling, Vp.parked, h])
  | idles => exact absurd rfl (noIdle _ _)
  | signals kind roused | broadcasts kind roused | dies joinable roused =>
    have same := congrArg (fun vp : Vp => vp.pollq t) roused.rest
    exact .inl same
  | @condNew cvar fresh => cases cvar <;> exact .inl rfl
  | @mutexNew lock fresh => cases lock <;> exact .inl rfl
  | @cleansUp term place joinable =>
    left
    simp only [stCondDestroy]
    split <;> rfl
  | _ => exact .inl rfl

variable {E : EventSys σ ω} {hist older : List (SysEvent σ ω)} {s : System σ} {e : SysEvent σ ω} {t : Tid}

theorem Stepped.pollPlace (stepped : Stepped e) (place : (e.post.vp.thr t).context = .poll) :
    (e.pre.vp.thr t).context = .poll ∨ t = e.actor ∧ (e.post.vp.thr t).state = .ioWait ∧ e.label.isCall = true := by
  by_cases h : t = e.actor
  · subst h
    obtain ⟨th, acted, picked⟩ := stepped.self
    rw [picked.context] at place
    rw [picked.state (by simp)]
    cases acted with
    | parked where_ =>
      simp only at place
      subst place
      generalize e.label = l at where_ ⊢
      cases where_ with
      | poll => exact .inr ⟨rfl, rfl, rfl⟩
    | same | cleared | flagged | idled => exact .inl place
    | _ => cases place
  · obtain ⟨th, touched, picked⟩ := stepped.other t h
    rw [picked.context] at place
    obtain same | ⟨-, fresh⟩ := touched.context
    · exact .inl (same ▸ place)
    · rw [fresh] at place; cases place

theorem Told.step (told : Told e.pre.vp.InPoll e.pre.vp.pollq) (tells : Tells E) (stepped : Stepped e)
    (fired : e.Fired (machine E)) : Told e.post.vp.InPoll e.post.vp.pollq := by
  intro t place off
  obtain held | ⟨rfl, waits, -⟩ := stepped.pollPlace place
  · by_cases idles : ∃ now time, e.label = .idle now time
    · obtain ⟨now, time, cause⟩ := idles
      have run := fired.step
      have enabled := fired.enabled
      simp only [machine, cause, StateThreads.enabled, Bool.and_eq_true, decide_eq_true_eq] at enabled
      simp only [machine, cause, StateThreads.step, stIdleTurn, Option.bind_eq_bind, Option.bind_eq_some_iff] at run
      obtain ⟨⟨evt, vp₁⟩, dispatched, vp₂, clock, ⟨vp₃, out'⟩, switched, run⟩ := run
      have same : e.post.vp.io = vp₁.io := by
        rw [← (Prod.mk.inj (Option.some.inj run)).1]
        exact (switchContext_io switched).1.trans (show vp₂.io = _ from stVpCheckClock_io clock)
      rw [(Prod.mk.inj same).2] at off ⊢
      simp only [dispatch, Option.bind_eq_bind, Option.bind_eq_some_iff] at dispatched
      obtain ⟨⟨evt₁, found⟩, -, dispatched⟩ := dispatched
      cases found with
      | false => cases dispatched; exact told t held off
      | true =>
        simp only [if_true, Option.bind_eq_some_iff] at dispatched
        obtain ⟨⟨evt₂, vp₄⟩, walked, dispatched⟩ := dispatched
        cases dispatched
        exact Told.walk tells stepped.pre enabled.1.1 walked told t held off
    · obtain ⟨vp', switch, post, move, -⟩ := stepped.move
      have records : e.post.vp.pollq = vp'.pollq := by
        rw [post]
        exact (Prod.mk.inj (vp'.after_io switch)).2
      rw [records] at off ⊢
      obtain same | ⟨-, on, -⟩ := move.told (fun now time cause => idles ⟨now, time, cause⟩) t
      · rw [same] at off ⊢
        exact told t held off
      · rw [on] at off; cases off
  · have on := (stepped.post.inv.linked_poll ⟨place, waits⟩).1
    rw [on] at off
    cases off

theorem SysRun.told (tells : Tells E) (run : SysRun E hist s) : Told s.vp.InPoll s.vp.pollq := by
  refine run.induct (P := fun _ s => Told s.vp.InPoll s.vp.pollq) ?_ ?_
  · intro s started t place
    have outside := started.blank.place t
    rw [show (s.vp.thr t).context = _ from place] at outside
    cases outside
  · intro hist e before told fired
    exact told.step tells (SysRun.stepped before fired) fired

variable {κ : Type}

def EpollCounts (s : System (Epoll.State κ)) : Prop :=
  ∀ fd, s.evt.data.fdData fd = ⟨(polled s.vp).countP fun pd => pd.fd = fd && pd.reads,
    (polled s.vp).countP fun pd => pd.fd = fd && pd.writes, (polled s.vp).countP fun pd => pd.fd = fd && pd.excepts, 0⟩

structure PollAccounts (hist : List (SysEvent (Epoll.State κ) ω)) (s : System (Epoll.State κ)) : Prop where
  queued : ∀ t, t ∈ s.vp.ioQ ↔ (s.vp.thr t).context = .poll ∧ (s.vp.pollq t).onIoq = true
  once : s.vp.ioQ.Nodup
  waiting : ∀ t, (s.vp.thr t).context = .poll → (s.vp.thr t).state = .ioWait → t ∈ s.vp.ioQ
  removed : ∀ t, (s.vp.thr t).context = .poll → t ∉ s.vp.ioQ → ∃ pd ∈ (s.vp.pollq t).pds, pd.revents ≠ 0
  counts : EpollCounts s
  positive : ∀ fd, 0 ≤ (s.evt.data.fdData fd).rdRefCnt ∧ 0 ≤ (s.evt.data.fdData fd).wrRefCnt ∧
    0 ≤ (s.evt.data.fdData fd).exRefCnt
  returns : ∀ e older pds timeout r b, (e :: older) <:+ hist → Completes older e (.poll pds timeout) r b →
    e.actor ∉ e.post.vp.ioQ ∧ EpollCounts e.post
  close : ∀ fd, Epoll.fdClose s.evt.data fd = some .ebusy ↔
    ∃ t ∈ s.vp.ioQ, ∃ pd ∈ (s.vp.pollq t).pds, pd.fd = fd

theorem Epoll.tells (K : Epoll.Kernel κ ω) (created : κ → Int → Prop) : Tells (Epoll.eventSys K created) := by
  intro evt pds found
  simpa [Epoll.eventSys, Epoll.visit] using found

theorem Epoll.Accounts.counts {s : System (Epoll.State κ)} (kept : Epoll.Accounts s.evt (polled s.vp)) :
    EpollCounts s := by
  intro fd
  have counts := kept.1.counts fd
  have silent := kept.2 fd
  simp only [Epoll.FdData.quiet, Epoll.FdData.more, Epoll.tally, zero_add] at counts
  rw [← counts, ← silent]

theorem Completes.user {b : SysEvent σ ω} {op : Op} {r : Ret} (done : Completes older e op r b)
    (run : SysRun E older e.pre) (fired : e.Fired (machine E)) : (e.post.vp.thr e.actor).context = .user := by
  have stepped := SysRun.stepped run fired
  obtain ⟨th, acted, picked⟩ := stepped.self
  rw [picked.context]
  have out := done.out
  obtain ⟨cause, -⟩ | ⟨cause, -⟩ := done.cases run fired
  · have user := stepped.user _ cause
    cases acted with
    | same | cleared | flagged => exact user
    | began cause' | returned cause' | rejoined cause' => simp [cause] at cause'
    | _ => simp_all
  · cases acted with
    | same _ _ call => exact absurd cause call
    | cleared cause' | flagged cause' => simp [cause] at cause'
    | began | returned => rfl
    | _ => simp_all

theorem Epoll.Accounts.close {s : System (Epoll.State κ)} (kept : Epoll.Accounts s.evt (polled s.vp)) (fd : Int) :
    Epoll.fdClose s.evt.data fd = some .ebusy ↔ ∃ t ∈ s.vp.ioQ, ∃ pd ∈ (s.vp.pollq t).pds, pd.fd = fd := by
  have counts := kept.counts fd
  have positive : ∀ kind : PollFd → Bool, ((polled s.vp).countP fun pd => pd.fd = fd && kind pd : Int) ≠ 0 ↔
      ∃ pd ∈ polled s.vp, pd.fd = fd ∧ kind pd = true := by
    intro kind
    simp
  have entry : (∃ t ∈ s.vp.ioQ, ∃ pd ∈ (s.vp.pollq t).pds, pd.fd = fd) ↔ ∃ pd ∈ polled s.vp, pd.fd = fd := by
    simp only [polled, List.mem_flatMap]
    constructor
    · rintro ⟨t, queued, pd, member, same⟩
      exact ⟨pd, ⟨t, queued, member⟩, same⟩
    · rintro ⟨pd, ⟨t, queued, member⟩, same⟩
      exact ⟨t, queued, pd, member, same⟩
  rw [entry, Epoll.fdClose, counts]
  simp only [positive]
  constructor
  · intro busy
    split at busy
    · rename_i found
      obtain ⟨pd, member, same, -⟩ | ⟨pd, member, same, -⟩ | ⟨pd, member, same, -⟩ := found <;>
        exact ⟨pd, member, same⟩
    · cases busy
  · rintro ⟨pd, member, same⟩
    rw [if_pos]
    obtain reads | writes | excepts := (kept.1.inside pd member).1.counted
    · exact .inl ⟨pd, member, same, reads⟩
    · exact .inr (.inl ⟨pd, member, same, writes⟩)
    · exact .inr (.inr ⟨pd, member, same, excepts⟩)

/-- Whatever the kernel answers: io_q holds exactly the polling threads whose entries are
still there, the counts are those of the entries on it, and no call of st_poll leaves
anything behind. -/
theorem poll_accounting (K : Epoll.Kernel κ ω) (created : κ → Int → Prop)
    (hist : List (SysEvent (Epoll.State κ) ω)) (s : System (Epoll.State κ))
    (run : SysRun (Epoll.eventSys K created) hist s) (noFork : ∀ e ∈ hist, Epoll.NoFork K e.pre e.label) :
    PollAccounts hist s := by
  have kept := (Epoll.eventSys_accounts K created).run run noFork
  have inv := run.settled.inv
  exact {
    queued := fun t => inv.ioQ_iff
    once := inv.ioQ_nodup
    waiting := fun t place waits => inv.ioQ_iff.mpr ⟨place, (inv.linked_poll ⟨place, waits⟩).1⟩
    removed := by
      intro t place away
      apply run.told (Epoll.tells K created) t place
      by_contra on
      exact away (inv.ioQ_iff.mpr ⟨place, by simpa using on⟩)
    counts := kept.counts
    positive := by
      intro fd
      rw [kept.counts fd]
      simp
    returns := by
      intro e older pds timeout r b past done
      obtain ⟨before, fired⟩ := SysRun.before run past
      have stepped := SysRun.stepped before fired
      constructor
      · intro queued
        have place := (stepped.post.inv.ioQ_iff.mp queued).1
        rw [done.user before fired] at place
        cases place
      · have reached := (Epoll.eventSys_accounts K created).run (before.next fired)
          fun n member => noFork n (past.subset member)
        exact reached.counts
    close := kept.close }

structure Epoll.Scripted where
  registered : Int → Option (BitVec 32)
  ready : List (Int × BitVec 32)

/-- A kernel that keeps one epoll set; what becomes ready is decided from outside. -/
def Epoll.scripted : Epoll.Kernel Epoll.Scripted (List (Int × BitVec 32)) where
  epollCtl k _ op fd events :=
    match op, k.registered fd with
    | .add, none => ({ k with registered := Function.update k.registered fd (some events) }, none)
    | .add, some _ => (k, some .eexist)
    | .mod, some _ => ({ k with registered := Function.update k.registered fd (some events) }, none)
    | .del, some _ => ({ k with registered := Function.update k.registered fd none }, none)
    | .mod, none | .del, none => (k, some .enoent)
  epollWait k _ _ _ := (k, k.ready.filter fun e => (k.registered e.1).any fun m => e.2 &&& m ≠ 0)
  epollCreate k _ := ({ k with registered := fun _ => none }, some 4)
  close k _ := k
  realloc k _ := (k, true)
  getpid _ := 1
  outside k ready := { k with ready := ready }

def Epoll.startsEmpty (k : Epoll.Scripted) (_ : Int) : Prop := ∀ fd, k.registered fd = none

def Epoll.started : System (Epoll.State Epoll.Scripted) where
  vp := (stInit Vp.boot ⟨true, true, 0, some 0, some 1⟩).getD Vp.boot
  evt := ⟨Epoll.init 64 4 1, ⟨fun _ => none, []⟩⟩

theorem Epoll.started_ok : Started (Epoll.eventSys Epoll.scripted Epoll.startsEmpty) Epoll.started :=
  ⟨⟨64, 4, fun _ => rfl, rfl⟩, ⟨true, true, 0, some 0, some 1⟩, rfl, by decide⟩

/-- Threads 3 and 4 poll descriptor 5, thread 3 in two entries. It becomes writable, and
thread 3 is interrupted after it was notified. -/
theorem poll_accounting_shared_descriptor :
    ∃ hist s, SysRun (Epoll.eventSys Epoll.scripted Epoll.startsEmpty) hist s ∧
      (∀ e ∈ hist, Epoll.NoFork Epoll.scripted e.pre e.label) ∧
      (s.vp.ioQ = [4] ∧ (hist.map (·.out)).take 1 = [some (.fail .eintr)] ∧
        s.evt.data.fdData 5 = ⟨1, 0, 0, 0⟩) ∧ PollAccounts hist s := by
  obtain ⟨hist, s, run, seen⟩ := Run.found (M := machine (Epoll.eventSys Epoll.scripted Epoll.startsEmpty))
    [.call (.threadCreate (some 2) false none), .call (.threadCreate (some 3) false none),
      .call (.threadCreate (some 4) false none), .call (.usleep 9000), .resume, .call (.poll [⟨6, pollIn, 0⟩] 900),
      .resume, .call (.poll [⟨5, pollIn, 0⟩, ⟨5, pollOut, 0⟩] 900), .resume, .call (.poll [⟨5, pollIn, 0⟩] 900),
      .outside [(6, Epoll.epollIn), (5, Epoll.epollOut)], .idle 600 0, .resume, .call (.threadInterrupt 3),
      .call (.usleep 9000), .resume]
    Epoll.started_ok
    (p := fun hist s => decide (s.vp.ioQ = [4] ∧ (hist.map (·.out)).take 1 = [some (.fail .eintr)] ∧
        s.evt.data.fdData 5 = ⟨1, 0, 0, 0⟩) && hist.all fun e => e.pre.evt.data.pid = 1)
    (by decide +kernel)
  obtain ⟨results, pids⟩ := Bool.and_eq_true _ _ ▸ seen
  have noFork : ∀ e ∈ hist, Epoll.NoFork Epoll.scripted e.pre e.label := by
    intro e member now time _
    exact of_decide_eq_true (List.all_eq_true.mp pids e member)
  exact ⟨hist, s, run, noFork, of_decide_eq_true results, poll_accounting _ _ hist s run noFork⟩

end StateThreads
