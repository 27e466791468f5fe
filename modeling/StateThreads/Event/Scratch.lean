import StateThreads.Event.Fork
import StateThreads.Event.Notify

/-! The field revents of the table of _st_epoll_dispatch, its scratch memory: filled from
the bitsFor events, read by the walk over io_q, and cleared at the end. -/
namespace StateThreads.Epoll

variable {κ ω : Type} {K : Kernel κ ω}

def bitsFor (events : List (Int × BitVec 32)) (fd : Int) : BitVec 32 :=
  ((events.find? fun e => e.1 = fd).map Prod.snd).getD 0

/-- On an error or a hang-up the registered interest counts as reported. -/
def widened (bits interest : BitVec 32) : BitVec 32 :=
  if bits &&& (epollErr ||| epollHup) ≠ 0 then bits ||| interest else bits

theorem widened_zero (interest : BitVec 32) : widened 0 interest = 0 := by
  simp [widened]

theorem bitsFor_unnamed {events : List (Int × BitVec 32)} {fd : Int} (away : fd ∉ events.map Prod.fst) :
    bitsFor events fd = 0 := by
  have none : (events.find? fun e => e.1 = fd) = none := by
    apply List.find?_eq_none.mpr
    intro e member same
    exact away (List.mem_map.mpr ⟨e, member, of_decide_eq_true same⟩)
  simp [bitsFor, none]

theorem bitsFor_cons_self (e : Int × BitVec 32) (events : List (Int × BitVec 32)) : bitsFor (e :: events) e.1 = e.2 := by
  simp [bitsFor]

theorem bitsFor_cons_other {e : Int × BitVec 32} {fd : Int} (other : fd ≠ e.1) (events : List (Int × BitVec 32)) :
    bitsFor (e :: events) fd = bitsFor events fd := by
  simp [bitsFor, Ne.symm other]

theorem mark_revents (d : Data) (e : Int × BitVec 32) : ((mark d e).fdData e.1).revents = widened e.2 (d.mask e.1) := by
  simp [mark, Data.setFd, widened, Data.mask]

theorem marks_reported {events : List (Int × BitVec 32)} (distinct : (events.map Prod.fst).Nodup) (d : Data) (fd : Int)
    (named : fd ∈ events.map Prod.fst) :
    ((events.foldl mark d).fdData fd).revents = widened (bitsFor events fd) (d.mask fd) := by
  induction events generalizing d with
  | nil => simp at named
  | cons e events ih =>
    rw [List.map_cons] at distinct named
    obtain ⟨first, distinct⟩ := List.nodup_cons.mp distinct
    rw [List.foldl_cons]
    by_cases here : fd = e.1
    · subst here
      rw [(marks_data events (mark d e)).2.1 e.1 first, mark_revents, bitsFor_cons_self]
    · have later : fd ∈ events.map Prod.fst := by simpa [here] using named
      rw [ih distinct (mark d e) later, bitsFor_cons_other here, Data.mask, (mark_data d e).2.1 fd here]
      rfl

def Silent (d : Data) : Prop := ∀ fd, (d.fdData fd).revents = 0

def Marked (d : Data) : Prop := ∀ fd, (d.fdData fd).revents ≠ 0 → fd ∈ d.evtlist.map Prod.fst

theorem Silent.of_eq {d d' : Data} (silent : Silent d) (same : ∀ fd, (d'.fdData fd).revents = (d.fdData fd).revents) :
    Silent d' := fun fd => (same fd).trans (silent fd)

theorem pollsetDel_revents (s : State κ) (pds : List PollFd) (fd : Int) :
    ((pollsetDel K s pds).data.fdData fd).revents = (s.data.fdData fd).revents := by
  rw [(pollsetDel_data s pds).1]
  rfl

theorem fdDataExpand_silent {s s' : State κ} {maxfd : Int} {ok : Bool} (silent : Silent s.data)
    (run : fdDataExpand K s maxfd = some (s', ok)) : Silent s'.data := by
  simp only [fdDataExpand, Option.bind_eq_bind, Option.bind_eq_some_iff] at run
  obtain ⟨n, -, run⟩ := run
  split at run
  · cases run
    intro fd
    dsimp only
    split
    · rfl
    · exact silent fd
  · cases run
    exact silent

theorem checkLoop_silent {pds : List PollFd} {s s' : State κ} {error : Option AddError} (silent : Silent s.data)
    (run : checkLoop K pds s = some (s', error)) : Silent s'.data := by
  induction pds generalizing s with
  | nil =>
    cases run
    exact silent
  | cons pd pds ih =>
    rw [checkLoop] at run
    split at run
    · cases run
      exact silent
    · split at run
      · simp only [Option.bind_eq_bind, Option.bind_eq_some_iff] at run
        obtain ⟨⟨s₁, ok⟩, expanded, run⟩ := run
        have grown := fdDataExpand_silent silent expanded
        cases ok with
        | true => exact ih grown run
        | false =>
          cases run
          exact grown
      · exact ih silent run

theorem pollsetAdd_silent {s s' : State κ} {pds : List PollFd} {error : Option AddError} (silent : Silent s.data)
    (run : pollsetAdd K s pds = some (s', error)) : Silent s'.data := by
  simp only [pollsetAdd, Option.bind_eq_bind, Option.bind_eq_some_iff] at run
  obtain ⟨⟨s₁, refused⟩, checked, run⟩ := run
  have first := checkLoop_silent silent checked
  cases refused with
  | some e =>
    cases run
    exact first
  | none =>
    simp only [Option.bind_eq_some_iff] at run
    obtain ⟨⟨s₂, stop⟩, added, run⟩ := run
    obtain ⟨n, -, counts, -⟩ := addLoop_data added
    have second : Silent s₂.data := first.of_eq fun fd => by rw [counts]; rfl
    cases stop with
    | none =>
      cases run
      exact second
    | some at_ =>
      cases run
      exact second.of_eq (pollsetDel_revents s₂ _)

theorem refill_silent {s s' : State κ} {ioq : List (List PollFd)} (silent : Silent s.data)
    (run : refill K s ioq = some s') : Silent s'.data := by
  induction ioq generalizing s with
  | nil =>
    cases run
    exact silent
  | cons pds ioq ih =>
    obtain ⟨s₁, error, added, run⟩ := refill_cons run
    exact ih (pollsetAdd_silent silent added) run

theorem afterFork_silent {s s' : State κ} {ioq : List (List PollFd)} {created : Bool} (silent : Silent s.data)
    (run : afterFork K s ioq = some (s', created)) : Silent s'.data := by
  obtain ⟨-, same⟩ | ⟨-, epfd, refilled⟩ := afterFork_cases run
  · rw [same]
    exact silent
  · refine refill_silent ?_ refilled
    intro fd
    dsimp only [Data.cleared]
    split
    · rfl
    · exact silent fd

theorem epollWait_marked {s s' : State κ} {timeout : Int} {found : Bool} (silent : Silent s.data)
    (run : epollWait K s timeout = (s', found)) : if found then Marked s'.data else Silent s'.data := by
  unfold epollWait at run
  generalize K.epollWait s.kern s.data.epfd s.data.evtlistSize timeout = answer at run
  obtain ⟨kern, events⟩ := answer
  obtain ⟨rfl, rfl⟩ := Prod.mk.inj run
  obtain ⟨-, others, rest⟩ := marks_data events { s.data with evtlist := events }
  have list : (events.foldl mark { s.data with evtlist := events }).evtlist = events := by rw [rest]
  split
  · intro fd fired
    simp only [list]
    by_contra away
    simp only [others fd away] at fired
    exact fired (silent fd)
  · rename_i none
    obtain rfl : events = [] := by simpa using none
    exact silent

theorem wait_marked {s s' : State κ} {min : Option UTime} {ioq : List (List PollFd)} {found : Bool}
    (silent : Silent s.data) (run : wait K s min ioq = some (s', found)) :
    if found then Marked s'.data else Silent s'.data := by
  unfold wait at run
  split at run
  · simp only [Option.bind_eq_bind, Option.bind_eq_some_iff] at run
    obtain ⟨⟨s₁, created⟩, forked, run⟩ := run
    have kept := afterFork_silent silent forked
    cases created with
    | true => exact epollWait_marked kept (Option.some.inj run)
    | false =>
      cases run
      exact kept
  · exact epollWait_marked silent (Option.some.inj run)

theorem Marked.finished {s : State κ} (marked : Marked s.data) : Silent (finish K s).data := by
  intro fd
  unfold finish
  rw [(settles_data s.data.evtlist s).1]
  split
  · rfl
  · rename_i away
    by_contra fired
    exact away (marked fd fired)

/-- Between dispatches no descriptor has scratch bits, whatever the kernel answers. -/
theorem eventSys_silent (K : Kernel κ ω) (created : κ → Int → Prop) :
    Bookkeeping (eventSys K created) (fun _ _ => True) (fun evt _ => Silent evt.data) (fun evt _ => Marked evt.data) where
  asks _ _ _ _ kept := kept
  walkAsks _ _ _ _ kept := kept
  initial evt start := by
    obtain ⟨fdlim, epfd, -, data⟩ := start
    rw [data]
    exact fun fd => rfl
  added _ _ _ _ kept run := pollsetAdd_silent kept run
  refused _ _ _ _ _ kept run := pollsetAdd_silent kept run
  deleted evt _ pds kept := Silent.of_eq kept (pollsetDel_revents evt pds)
  waited _ _ _ _ _ _ _ _ kept run := wait_marked kept run
  visited evt pds _ kept := by
    refine ⟨kept, ?_⟩
    simp only [eventSys, visit, List.map_map]
    exact List.map_congr_left fun pd _ => look_ask evt.data pd
  withdrawn evt _ pds kept := by
    intro fd fired
    rw [show (eventSys K created).withdraw = pollsetDel K from rfl, pollsetDel_revents] at fired
    rw [show (eventSys K created).withdraw = pollsetDel K from rfl, (pollsetDel_data evt pds).2.2.evtlist]
    exact kept fd fired
  stayed _ _ _ kept := kept
  finished _ _ kept := kept.finished
  fdNew evt evt' _ fd error kept run := by
    simp only [eventSys, fdNew] at run
    split at run
    · simp only [Option.map_eq_some_iff] at run
      obtain ⟨⟨s₁, ok⟩, expanded, same⟩ := run
      cases same
      exact fdDataExpand_silent kept expanded
    · cases run
      exact kept
  outside _ _ _ kept := kept

/-- What the walk finds depends on the scratch memory alone, which the walk leaves as it is. -/
theorem findings_look (created : κ → Int → Prop) (todo : List (List PollFd)) (s : State κ) (d : Data)
    (same : ∀ fd, (s.data.fdData fd).revents = (d.fdData fd).revents) :
    findings (eventSys K created) todo s =
      todo.map fun pds => (pds.map (look d), (pds.map (look d)).any fun pd => pd.revents ≠ 0) := by
  induction todo generalizing s with
  | nil => rfl
  | cons pds todo ih =>
    have looks : pds.map (look s.data) = pds.map (look d) := by
      apply List.map_congr_left
      intro pd _
      simp only [look, same]
    rw [findings_cons, List.map_cons]
    congr 1
    · simp only [eventSys, visit, looks]
    · apply ih
      intro fd
      unfold visitedOne
      split
      · exact (pollsetDel_revents s _ fd).trans (same fd)
      · exact same fd

/-- The state in which dispatch calls epoll_wait: that of the caller, or the one that the
branch after a fork leaves. -/
def Asks (K : Kernel κ ω) (s : State κ) (ioq : List (List PollFd)) (s₀ : State κ) : Prop :=
  (s.data.pid = K.getpid s.kern ∧ s₀ = s) ∨ (s.data.pid ≠ K.getpid s.kern ∧ afterFork K s ioq = some (s₀, true))

theorem Asks.wait {s s₀ : State κ} {ioq : List (List PollFd)} (asks : Asks K s ioq s₀) (min : Option UTime) :
    Epoll.wait K s min ioq = some (epollWait K s₀ (msTimeout min)) := by
  unfold Epoll.wait
  obtain ⟨same, rfl⟩ | ⟨other, forked⟩ := asks
  · rw [if_neg (by simp [same])]
  · rw [if_pos other, forked]
    rfl

theorem Asks.silent {s s₀ : State κ} {ioq : List (List PollFd)} (asks : Asks K s ioq s₀) (silent : Silent s.data) :
    Silent s₀.data := by
  obtain ⟨-, rfl⟩ | ⟨-, forked⟩ := asks
  · exact silent
  · exact afterFork_silent silent forked

theorem epollWait_revents {s : State κ} {timeout : Int} {events : List (Int × BitVec 32)} (silent : Silent s.data)
    (answer : (K.epollWait s.kern s.data.epfd s.data.evtlistSize timeout).2 = events)
    (distinct : (events.map Prod.fst).Nodup) (fd : Int) :
    ((epollWait K s timeout).1.data.fdData fd).revents = widened (bitsFor events fd) (s.data.mask fd) := by
  subst answer
  simp only [epollWait]
  generalize (K.epollWait s.kern s.data.epfd s.data.evtlistSize timeout).2 = events at distinct ⊢
  by_cases named : fd ∈ events.map Prod.fst
  · exact marks_reported distinct _ fd named
  · rw [(marks_data events _).2.1 fd named, bitsFor_unnamed named, widened_zero]
    exact silent fd

end StateThreads.Epoll
