import StateThreads.Contract.Calls
import StateThreads.Event.Walk

/-! The pollfd entries on io_q and the data an event system keeps for them. What its
functions do for one pollfd array is asked for once; what holds at the end of every run
follows. -/
namespace StateThreads
open LabelledRun

variable {σ ω : Type}

def polled (vp : Vp) : List PollFd := vp.ioQ.flatMap fun t => (vp.pollq t).pds

def PollFd.ask (pd : PollFd) : Int × BitVec 16 := (pd.fd, pd.events)

def SameAsks (ps qs : List PollFd) : Prop := (ps.map PollFd.ask).Perm (qs.map PollFd.ask)

theorem SameAsks.of_eq {ps qs : List PollFd} (same : ps.map PollFd.ask = qs.map PollFd.ask) : SameAsks ps qs := by
  rw [SameAsks, same]

/-- The functions of an event system keep J between dispatches and W during the walk over
io_q. The predicate fair holds of the steps that are looked at. -/
structure Bookkeeping (E : EventSys σ ω) (fair : System σ → Label ω → Prop) (J W : σ → List PollFd → Prop) :
    Prop where
  asks : ∀ evt ps qs, SameAsks ps qs → J evt ps → J evt qs
  walkAsks : ∀ evt ps qs, SameAsks ps qs → W evt ps → W evt qs
  initial : ∀ evt, E.initial evt → J evt []
  added : ∀ evt evt' ps pds, J evt ps → E.pollsetAdd evt pds = some (evt', none) → J evt' (ps ++ pds)
  refused : ∀ evt evt' ps pds error, J evt ps → E.pollsetAdd evt pds = some (evt', some error) → J evt' ps
  deleted : ∀ evt ps pds, J evt (pds ++ ps) → J (E.pollsetDel evt pds) ps
  waited : ∀ s now time min ioq evt' found, fair s (.idle now time) → J s.evt (polled s.vp) →
    E.wait s.evt min ioq = some (evt', found) → if found then W evt' (polled s.vp) else J evt' (polled s.vp)
  visited : ∀ evt pds ps, W evt ps → W (E.visit evt pds).1 ps ∧ (E.visit evt pds).2.1.map PollFd.ask = pds.map PollFd.ask
  withdrawn : ∀ evt ps pds, W evt (pds ++ ps) → W (E.withdraw evt pds) ps
  stayed : ∀ evt ps pds, W evt ps → W (E.stay evt pds) ps
  finished : ∀ evt ps, W evt ps → J (E.finish evt) ps
  fdNew : ∀ evt evt' ps fd error, J evt ps → E.fdNew evt fd = some (evt', error) → J evt' ps
  outside : ∀ s change, fair s (.outside change) → J s.evt (polled s.vp) → J (E.outside s.evt change) (polled s.vp)

/-- What a run needs of an event system to keep J: its functions keep it, and so does a
whole dispatch. -/
structure Keeping (E : EventSys σ ω) (fair : System σ → Label ω → Prop) (J : σ → List PollFd → Prop) : Prop where
  asks : ∀ evt ps qs, SameAsks ps qs → J evt ps → J evt qs
  initial : ∀ evt, E.initial evt → J evt []
  added : ∀ evt evt' ps pds, J evt ps → E.pollsetAdd evt pds = some (evt', none) → J evt' (ps ++ pds)
  refused : ∀ evt evt' ps pds error, J evt ps → E.pollsetAdd evt pds = some (evt', some error) → J evt' ps
  deleted : ∀ evt ps pds, J evt (pds ++ ps) → J (E.pollsetDel evt pds) ps
  dispatched : ∀ s now time evt vp, fair s (.idle now time) → Settled s.vp →
    (s.vp.thr s.vp.current).context = .idle → J s.evt (polled s.vp) → dispatch E s.evt s.vp = some (evt, vp) →
    J evt (polled vp)
  fdNew : ∀ evt evt' ps fd error, J evt ps → E.fdNew evt fd = some (evt', error) → J evt' ps
  outside : ∀ s change, fair s (.outside change) → J s.evt (polled s.vp) → J (E.outside s.evt change) (polled s.vp)

/- The entries on io_q through one operation. -/

theorem polled_erase {vp : Vp} {t : Tid} (distinct : vp.ioQ.Nodup) (linked : t ∈ vp.ioQ) (pq : Tid → PollQ)
    (others : ∀ u, u ≠ t → (pq u).pds = (vp.pollq u).pds) {pds : List PollFd}
    (same : pds.map PollFd.ask = (vp.pollq t).pds.map PollFd.ask) :
    SameAsks (polled vp) (pds ++ (vp.ioQ.erase t).flatMap fun u => (pq u).pds) := by
  have rest : ((vp.ioQ.erase t).flatMap fun u => (pq u).pds) = (vp.ioQ.erase t).flatMap fun u => (vp.pollq u).pds := by
    apply List.flatMap_congr
    intro u hu
    exact others u fun h => (List.Nodup.not_mem_erase distinct) (h ▸ hu)
  rw [rest, SameAsks, polled, List.map_append, same, ← List.map_append]
  have perm := (List.perm_cons_erase linked).flatMap_right fun u => (vp.pollq u).pds
  rw [List.flatMap_cons] at perm
  exact perm.map _

theorem polled_linked {vp : Vp} {t : Tid} (pq : PollQ) (away : t ∉ vp.ioQ) :
    (vp.ioQ ++ [t]).flatMap (fun u => (Function.update vp.pollq t pq u).pds) = polled vp ++ pq.pds := by
  have rest : (vp.ioQ.flatMap fun u => (Function.update vp.pollq t pq u).pds) = polled vp := by
    apply List.flatMap_congr
    intro u hu
    have other : u ≠ t := fun h => away (h ▸ hu)
    simp [other]
  rw [List.flatMap_append, rest]
  simp

/- What the operations outside st_poll and dispatch leave alone. -/

def Vp.io (vp : Vp) : List Tid × (Tid → PollQ) := (vp.ioQ, vp.pollq)

theorem polled_io {vp vp' : Vp} (same : vp'.io = vp.io) : polled vp' = polled vp := by
  obtain ⟨queue, records⟩ := Prod.mk.inj same
  rw [polled, polled, queue, records]

theorem switchContext_io {vp vp' : Vp} {context : Context} {out : Option Ret}
    (run : switchContext vp context = some (vp', out)) : vp'.io = vp.io ∧ out = none := by
  simp only [switchContext, stVpSchedule, Option.bind_eq_bind, Option.bind_eq_some_iff, Option.some.injEq] at run
  obtain ⟨vp₁, chosen, same⟩ := run
  split at chosen
  · obtain ⟨rfl, rfl⟩ := Prod.mk.inj same
    cases chosen
    exact ⟨rfl, rfl⟩
  · cases chosen

theorem armSleepq_io {vp vp' : Vp} {t : Tid} {timeout : UTime} (run : vp.armSleepq t timeout = some vp') :
    vp'.io = vp.io := by
  unfold Vp.armSleepq at run
  split at run
  · simp only [Vp.addSleepq, Option.bind_eq_bind, Option.bind_eq_some_iff, Option.some.injEq] at run
    obtain ⟨q, -, rfl⟩ := run
    rfl
  · cases run; rfl

theorem makeRunnable_io {vp vp' : Vp} {t : Tid} (run : vp.makeRunnable t = some vp') : vp'.io = vp.io := by
  simp only [Vp.makeRunnable, Vp.addRunq] at run
  split at run
  · cases run
  · cases run; rfl

theorem checkClockLoop_io (now : UTime) (fuel : Nat) {vp vp' : Vp} (run : checkClockLoop now fuel vp = some vp') :
    vp'.io = vp.io := by
  induction fuel generalizing vp with
  | zero => cases run
  | succ fuel ih =>
    unfold checkClockLoop at run
    split at run
    · cases run; rfl
    · rename_i thread _
      split at run
      · cases run
      · split at run
        · cases run; rfl
        · simp only [Option.bind_eq_bind, Option.bind_eq_some_iff] at run
          obtain ⟨vp₁, taken, run⟩ := run
          have first : vp₁.io = vp.io := by
            simp only [Vp.delSleepq, Option.bind_eq_bind, Option.bind_eq_some_iff, Option.some.injEq] at taken
            obtain ⟨q, -, rfl⟩ := taken
            rfl
          have marked : (if (vp₁.thr thread).state = .condWait then vp₁.setTimedout thread true else vp₁).io = vp.io := by
            split <;> exact first
          generalize (if (vp₁.thr thread).state = .condWait then vp₁.setTimedout thread true else vp₁) = vp₂
            at run marked
          split at run
          · cases run
          · obtain ⟨vp₃, made, run⟩ := Option.bind_eq_some_iff.mp run
            rw [ih run, makeRunnable_io made, marked]

theorem stVpCheckClock_io {vp vp' : Vp} {now : UTime} {time : Nat} (run : stVpCheckClock vp now time = some vp') :
    vp'.io = vp.io := by
  unfold stVpCheckClock at run
  rw [checkClockLoop_io now _ run]
  split <;> rfl

/- The walk over io_q. -/

theorem SameAsks.withdrawn {seen pds : List PollFd} (same : seen.map PollFd.ask = pds.map PollFd.ask)
    (todo : List (List PollFd)) (kept : List PollFd) :
    SameAsks ((pds :: todo).flatten ++ kept) (seen ++ (todo.flatten ++ kept)) := by
  apply SameAsks.of_eq
  simp [same]

theorem SameAsks.stayed {seen pds : List PollFd} (same : seen.map PollFd.ask = pds.map PollFd.ask)
    (todo : List (List PollFd)) (kept : List PollFd) :
    SameAsks ((pds :: todo).flatten ++ kept) (todo.flatten ++ (kept ++ seen)) := by
  rw [SameAsks]
  simp only [List.flatten_cons, List.map_append, same, ← List.append_assoc]
  rw [List.append_assoc]
  exact List.perm_append_comm

/-- A rule for the walk. W speaks of the pollfd arrays still to be visited and of the
entries of the pollqs that were visited and stay. -/
structure Walk (E : EventSys σ ω) (W : σ → List (List PollFd) → List PollFd → Prop) : Prop where
  withdrawn : ∀ evt pds todo kept, W evt (pds :: todo) kept → (E.visit evt pds).2.2 = true →
    W (E.withdraw (E.visit evt pds).1 (E.visit evt pds).2.1) todo kept
  stayed : ∀ evt pds todo kept, W evt (pds :: todo) kept → (E.visit evt pds).2.2 = false →
    W (E.stay (E.visit evt pds).1 (E.visit evt pds).2.1) todo (kept ++ (E.visit evt pds).2.1)

def stayers (found : List (List PollFd × Bool)) : List PollFd := (found.filter fun r => !r.2).flatMap Prod.fst

theorem Walk.part {E : EventSys σ ω} {W : σ → List (List PollFd) → List PollFd → Prop} (walk : Walk E W)
    {front back : List (List PollFd)} {evt : σ} {kept : List PollFd} (start : W evt (front ++ back) kept) :
    W (walked E front evt) back (kept ++ stayers (findings E front evt)) := by
  induction front generalizing evt kept with
  | nil => simpa [stayers, findings, walked] using start
  | cons pds front ih =>
    rw [walked_cons, findings_cons]
    cases hit : (E.visit evt pds).2.2 with
    | true =>
      have next : W (visitedOne E evt pds) (front ++ back) kept := by
        rw [visitedOne, if_pos hit]
        exact walk.withdrawn _ _ _ _ start hit
      simpa [stayers, hit] using ih next
    | false =>
      have next : W (visitedOne E evt pds) (front ++ back) (kept ++ (E.visit evt pds).2.1) := by
        rw [visitedOne, if_neg (by simp [hit])]
        exact walk.stayed _ _ _ _ start hit
      simpa [stayers, hit] using ih next

theorem Visited.polled {vp vp' : Vp} {f : Tid → List PollFd × Bool} (visited : Visited vp vp.ioQ f vp') :
    polled vp' = stayers (vp.ioQ.map f) := by
  have queue : vp'.ioQ = vp.ioQ.filter fun t => !(f t).2 := by
    rw [visited.ioQ]
    apply List.filter_congr
    intro t member
    simp [notifiedOf, member]
  rw [StateThreads.polled, queue, stayers, List.filter_map, List.flatMap_map]
  apply List.flatMap_congr
  intro t member
  rw [visited.told t (List.mem_of_mem_filter member)]

theorem Walk.dispatched {E : EventSys σ ω} {W : σ → List (List PollFd) → List PollFd → Prop} (walk : Walk E W)
    {evt evt' : σ} {vp vp' : Vp} (settled : Settled vp) (idle : (vp.thr vp.current).context = .idle)
    (run : dispatchLoop E vp.ioQ evt vp = some (evt', vp')) (start : W evt (vp.ioQ.map fun t => (vp.pollq t).pds) []) :
    W evt' [] (polled vp') := by
  obtain ⟨rfl, f, found, visited⟩ := dispatchLoop_found settled.inv idle (settled.empty idle) run
  rw [visited.polled, found]
  rw [← List.append_nil (List.map _ _)] at start
  exact walk.part start

theorem polled_flatten (vp : Vp) : polled vp = (vp.ioQ.map fun t => (vp.pollq t).pds).flatten := by
  rw [polled, List.flatMap_def]

section
variable {E : EventSys σ ω} {fair : System σ → Label ω → Prop} {J : σ → List PollFd → Prop} (keeping : Keeping E fair J)
include keeping

theorem Keeping.poll {s s' : System σ} {pds : List PollFd} {timeout : UTime} {out : Option Ret}
    (run : stPoll E s pds timeout = some (s', out)) (kept : J s.evt (polled s.vp)) : J s'.evt (polled s'.vp) := by
  simp only [stPoll] at run
  split at run
  · cases run; exact kept
  · simp only [Option.bind_eq_bind, Option.bind_eq_some_iff] at run
    obtain ⟨⟨evt, error⟩, added, run⟩ := run
    cases error with
    | some error =>
      cases run
      exact keeping.refused _ _ _ _ _ kept added
    | none =>
      simp only [Option.bind_eq_some_iff] at run
      obtain ⟨vp₁, linked, vp₂, armed, ⟨vp₃, out'⟩, switched, run⟩ := run
      cases run
      have same : vp₃.io = vp₁.io := (switchContext_io switched).1.trans (show vp₂.io = _ from armSleepq_io armed)
      rw [polled_io same]
      unfold Vp.addIoq at linked
      split at linked
      · cases linked
      · rename_i away
        cases linked
        have away : s.vp.current ∉ s.vp.ioQ := away
        have entries := polled_linked ⟨pds, true⟩ away
        have done := keeping.added _ _ _ _ kept added
        rw [← entries] at done
        exact done

theorem Keeping.pollResume {s s' : System σ} {out : Option Ret} (inv : Inv s.vp (some s.vp.current))
    (run : stPollResume E s = some (s', out)) (kept : J s.evt (polled s.vp)) : J s'.evt (polled s'.vp) := by
  have returns : ∀ {vp vp' : Vp} {n : Nat} {out : Option Ret}, pollReturn vp n = some (vp', out) → vp'.io = vp.io := by
    intro vp vp' n out run
    simp only [pollReturn] at run
    split at run <;> cases run <;> rfl
  simp only [stPollResume] at run
  split at run
  · simp only [Option.bind_eq_bind, Option.bind_eq_some_iff] at run
    obtain ⟨vp₁, taken, ⟨vp₂, out'⟩, returned, run⟩ := run
    cases run
    rw [polled_io (returns returned)]
    unfold Vp.delIoq at taken
    split at taken
    · rename_i linked
      cases taken
      apply keeping.deleted
      exact keeping.asks _ _ _ (polled_erase inv.ioQ_nodup linked s.vp.pollq (fun _ _ => rfl) rfl) kept
    · cases taken
  · simp only [Option.bind_eq_bind, Option.bind_eq_some_iff] at run
    obtain ⟨⟨vp₂, out'⟩, returned, run⟩ := run
    cases run
    rw [polled_io (returns returned)]
    exact kept

theorem Keeping.idleTurn {s s' : System σ} {now : UTime} {time : Nat} {out : Option Ret}
    (settled : Settled s.vp) (idle : (s.vp.thr s.vp.current).context = .idle) (ok : fair s (.idle now time))
    (run : stIdleTurn E s now time = some (s', out)) (kept : J s.evt (polled s.vp)) :
    J s'.evt (polled s'.vp) := by
  simp only [stIdleTurn, Option.bind_eq_bind, Option.bind_eq_some_iff] at run
  obtain ⟨⟨evt, vp₁⟩, dispatched, vp₂, clock, ⟨vp₃, out'⟩, switched, run⟩ := run
  cases run
  have same : vp₃.io = vp₁.io := (switchContext_io switched).1.trans (show vp₂.io = _ from stVpCheckClock_io clock)
  rw [polled_io same]
  exact keeping.dispatched s now time evt vp₁ ok settled idle kept dispatched

end

/- Steps that neither enter nor leave st_poll and do not dispatch. -/

theorem lift_evt {s s' : System σ} {r : Outcome} {out : Option Ret} (run : s.lift r = some (s', out)) :
    s'.evt = s.evt := by
  simp only [System.lift, Option.map_eq_some_iff] at run
  obtain ⟨r, -, same⟩ := run
  cases same
  rfl

theorem Move.io {vp vp' : Vp} {l : Label ω} {out : Option Ret} {switch : Bool} (move : Move vp l vp' out switch) :
    vp'.io = vp.io ∨ (∃ pds timeout, l = .call (.poll pds timeout)) ∨
      (l = .resume ∧ (vp.thr vp.current).context = .poll) ∨ ∃ now time, l = .idle now time := by
  cases move with
  | polls => exact .inr (.inl ⟨_, _, rfl⟩)
  | polled place => exact .inr (.inr (.inl ⟨rfl, place⟩))
  | idles => exact .inr (.inr (.inr ⟨_, _, rfl⟩))
  | signals kind roused | broadcasts kind roused | dies joinable roused =>
    have same := congrArg Vp.io roused.rest
    exact .inl same
  | @condNew cvar fresh => cases cvar <;> exact .inl rfl
  | @mutexNew lock fresh => cases lock <;> exact .inl rfl
  | @cleansUp term place joinable =>
    left
    simp only [stCondDestroy]
    split <;> rfl
  | _ => exact .inl rfl

theorem Vp.after_io (vp : Vp) (switch : Bool) : (vp.after switch).io = vp.io := by
  cases switch <;> rfl

variable {E : EventSys σ ω} {fair : System σ → Label ω → Prop} {J W : σ → List PollFd → Prop}
  {hist : List (SysEvent σ ω)} {s : System σ} {e : SysEvent σ ω}

theorem Stepped.io_frame (stepped : Stepped e) (noPoll : ∀ pds timeout, e.label ≠ .call (.poll pds timeout))
    (noReturn : ¬ (e.label = .resume ∧ (e.pre.vp.thr e.actor).context = .poll))
    (noIdle : ∀ now time, e.label ≠ .idle now time) : polled e.post.vp = polled e.pre.vp := by
  obtain ⟨vp', switch, post, move, -⟩ := stepped.move
  rw [post, polled_io (vp'.after_io switch)]
  obtain same | ⟨pds, timeout, cause⟩ | resumes | ⟨now, time, cause⟩ := move.io
  · exact polled_io same
  · exact absurd cause (noPoll pds timeout)
  · exact absurd resumes noReturn
  · exact absurd cause (noIdle now time)

theorem Keeping.step (keeping : Keeping E fair J) (stepped : Stepped e) (fired : e.Fired (machine E))
    (ok : fair e.pre e.label) (kept : J e.pre.evt (polled e.pre.vp)) : J e.post.evt (polled e.post.vp) := by
  have run := fired.step
  have enabled := fired.enabled
  have settled := stepped.pre
  obtain ⟨pre, label, out, post⟩ := e
  cases label with
  | call op =>
    by_cases poll : ∃ pds timeout, op = .poll pds timeout
    · obtain ⟨pds, timeout, rfl⟩ := poll
      exact keeping.poll run kept
    · have frame := stepped.io_frame (by rintro pds timeout ⟨rfl⟩; exact poll ⟨_, _, rfl⟩) (by simp) (by simp)
      simp only [machine, step] at run frame
      rw [frame]
      cases op with
      | poll pds timeout => exact absurd ⟨pds, timeout, rfl⟩ poll
      | fdNew fd =>
        simp only [call, Option.map_eq_some_iff] at run
        obtain ⟨⟨evt, error⟩, done, same⟩ := run
        cases same
        exact keeping.fdNew _ _ _ _ _ kept done
      | _ =>
        rw [show post.evt = pre.evt from lift_evt run]
        exact kept
  | resume =>
    by_cases place : (pre.vp.thr pre.vp.current).context = .poll
    · simp only [machine, step, resume, place] at run
      exact keeping.pollResume settled.inv run kept
    · have frame := stepped.io_frame (by simp) (by simpa [SysEvent.actor] using place) (by simp)
      simp only [machine, step, resume] at run frame
      rw [frame]
      have same : post.evt = pre.evt := by
        split at run
        · cases run; rfl
        · exact lift_evt run
        · exact absurd ‹_› place
        · exact lift_evt run
        · exact lift_evt run
        · exact lift_evt run
        · exact lift_evt run
        · cases run
      rw [same]
      exact kept
  | idle now time =>
    have idle : (pre.vp.thr pre.vp.current).context = .idle := by
      simp only [machine, StateThreads.enabled, Bool.and_eq_true, decide_eq_true_eq] at enabled
      exact enabled.1.1
    exact keeping.idleTurn settled idle ok run kept
  | outside change =>
    simp only [machine, step, Option.some.injEq] at run
    cases run
    exact keeping.outside _ _ ok kept

/-- The bookkeeping is right at the end of every run of fair steps. -/
theorem Keeping.run (keeping : Keeping E fair J) (run : SysRun E hist s)
    (ok : ∀ e ∈ hist, fair e.pre e.label) : J s.evt (polled s.vp) := by
  refine run.induct (P := fun hist s => (∀ e ∈ hist, fair e.pre e.label) → J s.evt (polled s.vp)) ?_ ?_ ok
  · intro s started _
    rw [polled, started.blank.ioQ]
    exact keeping.initial _ started.1
  · intro hist e before kept fired ok
    exact keeping.step (SysRun.stepped before fired) fired (ok e (List.mem_cons_self ..))
      (kept fun n hn => ok n (List.mem_cons_of_mem _ hn))

theorem Bookkeeping.walk (book : Bookkeeping E fair J W) : Walk E fun evt todo kept => W evt (todo.flatten ++ kept) where
  withdrawn evt pds todo kept start _ := by
    obtain ⟨seen, asks⟩ := book.visited evt pds _ start
    exact book.withdrawn _ _ _ (book.walkAsks _ _ _ (.withdrawn asks todo kept) seen)
  stayed evt pds todo kept start _ := by
    obtain ⟨seen, asks⟩ := book.visited evt pds _ start
    exact book.stayed _ _ _ (book.walkAsks _ _ _ (.stayed asks todo kept) seen)

theorem Bookkeeping.walked (book : Bookkeeping E fair J W) {evt evt' : σ} {vp vp' : Vp} {found : Bool}
    (settled : Settled vp) (idle : (vp.thr vp.current).context = .idle)
    (after : if found then W evt (polled vp) else J evt (polled vp))
    (run : (if found then (dispatchLoop E vp.ioQ evt vp).bind fun r => some (E.finish r.1, r.2) else some (evt, vp)) =
      some (evt', vp')) : J evt' (polled vp') := by
  cases found with
  | false =>
    cases run
    exact after
  | true =>
    simp only [if_true, Option.bind_eq_some_iff] at run after
    obtain ⟨⟨evt₂, vp₁⟩, walked, run⟩ := run
    cases run
    apply book.finished
    rw [polled_flatten, ← List.append_nil (List.flatten _)] at after
    exact book.walk.dispatched settled idle walked after

theorem Bookkeeping.keeping (book : Bookkeeping E fair J W) : Keeping E fair J where
  asks := book.asks
  initial := book.initial
  added := book.added
  refused := book.refused
  deleted := book.deleted
  dispatched s now time evt vp ok settled idle kept run := by
    simp only [dispatch, Option.bind_eq_bind, Option.bind_eq_some_iff] at run
    obtain ⟨⟨evt₁, found⟩, answer, run⟩ := run
    exact book.walked settled idle (book.waited s now time _ _ _ _ ok kept answer) run
  fdNew := book.fdNew
  outside := book.outside

theorem Bookkeeping.run (book : Bookkeeping E fair J W) (run : SysRun E hist s)
    (ok : ∀ e ∈ hist, fair e.pre e.label) : J s.evt (polled s.vp) := book.keeping.run run ok

end StateThreads
