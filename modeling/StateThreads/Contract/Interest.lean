import StateThreads.Event.Mirror
import StateThreads.Contract.Polling

/-! What the kernel watches and what the threads in st_poll wait for. -/
namespace StateThreads
open LabelledRun PartialMap

def requested (ps : List PollFd) (fd : Int) : BitVec 32 :=
  (ps.filter fun pd => pd.fd = fd).foldr (fun pd mask => pd.events.setWidth 32 ||| mask) 0

namespace Epoll

theorem Valid.low {pd : PollFd} (valid : Valid pd) : pd.events = pd.events &&& 7#16 := by
  have split : pd.events = (pd.events &&& 7#16) ||| (pd.events &&& ~~~(pollIn ||| pollOut ||| pollPri)) := by
    rw [← BitVec.and_or_distrib_left,
      show 7#16 ||| ~~~(pollIn ||| pollOut ||| pollPri) = BitVec.allOnes 16 from rfl, BitVec.and_allOnes]
  rw [valid.known] at split
  exact split.trans BitVec.or_zero

theorem low_toNat_lt {x y : BitVec 16} (low : x = y &&& 7#16) : x.toNat < 8 := by
  rw [low, BitVec.toNat_and]
  exact Nat.lt_succ_of_le Nat.and_le_right

theorem Valid.bits {pd : PollFd} (valid : Valid pd) : pd.events.setWidth 32 =
    (if pd.reads then epollIn else 0) ||| (if pd.writes then epollOut else 0) ||| (if pd.excepts then epollPri else 0) := by
  have all : ∀ n : Fin 8, (BitVec.ofNat 16 n).setWidth 32 =
      (if BitVec.ofNat 16 n &&& pollIn ≠ 0 then epollIn else 0) |||
        (if BitVec.ofNat 16 n &&& pollOut ≠ 0 then epollOut else 0) |||
        (if BitVec.ofNat 16 n &&& pollPri ≠ 0 then epollPri else 0) := by decide
  have this := all ⟨pd.events.toNat, low_toNat_lt valid.low⟩
  simpa [PollFd.reads, PollFd.writes, PollFd.excepts] using this

theorem tally_cons_ne_zero (kind : PollFd → Bool) (pd : PollFd) (ps : List PollFd) (fd : Int) :
    tally kind (pd :: ps) fd ≠ 0 ↔ (pd.fd = fd ∧ kind pd = true) ∨ tally kind ps fd ≠ 0 := by
  have positive : ∀ l, tally kind l fd ≠ 0 ↔ 0 < tally kind l fd := by
    intro l
    have := tally_nonneg kind l fd
    omega
  simp [positive, tally_pos_iff]

theorem requested_eq {ps : List PollFd} (valid : ∀ pd ∈ ps, Valid pd) (fd : Int) : requested ps fd =
    (if tally PollFd.reads ps fd ≠ 0 then epollIn else 0) ||| (if tally PollFd.writes ps fd ≠ 0 then epollOut else 0) |||
      (if tally PollFd.excepts ps fd ≠ 0 then epollPri else 0) := by
  have merge : ∀ (p q : Prop) [Decidable p] [Decidable q] (m : BitVec 32),
      (if p ∨ q then m else 0) = (if p then m else 0) ||| (if q then m else 0) := by
    intro p q _ _ m
    by_cases p <;> by_cases q <;> simp [*]
  induction ps with
  | nil => simp [requested, tally]
  | cons pd ps ih =>
    have rest := ih fun p member => valid p (List.mem_cons_of_mem _ member)
    simp only [tally_cons_ne_zero, merge]
    by_cases here : pd.fd = fd
    · have this : requested (pd :: ps) fd = pd.events.setWidth 32 ||| requested ps fd := by simp [requested, here]
      rw [this, rest, (valid pd (List.mem_cons_self ..)).bits]
      simp only [here, true_and]
      ac_rfl
    · have this : requested (pd :: ps) fd = requested ps fd := by simp [requested, here]
      rw [this, rest]
      simp [here]

theorem Counted.mask_requested {d : Data} {ps : List PollFd} (counted : Counted d ps) (fd : Int) :
    d.mask fd = requested ps fd := by
  have counts := counted.counts fd
  simp only [FdData.quiet, FdData.more, zero_add, FdData.mk.injEq, and_true] at counts
  obtain ⟨rd, wr, ex⟩ := counts
  rw [requested_eq (fun pd member => (counted.inside pd member).1), Data.mask, FdData.events, rd, wr, ex]

end Epoll

theorem requested_of_mem {ps : List PollFd} {pd : PollFd} (member : pd ∈ ps) :
    ∃ rest, requested ps pd.fd = pd.events.setWidth 32 ||| rest := by
  induction ps with
  | nil => cases member
  | cons p ps ih =>
    obtain rfl | member := List.mem_cons.mp member
    · exact ⟨requested ps pd.fd, by simp [requested]⟩
    · obtain ⟨rest, same⟩ := ih member
      by_cases here : p.fd = pd.fd
      · refine ⟨p.events.setWidth 32 ||| rest, ?_⟩
        have this : requested (p :: ps) pd.fd = p.events.setWidth 32 ||| requested ps pd.fd := by simp [requested, here]
        rw [this, same]
        ac_rfl
      · refine ⟨rest, ?_⟩
        rw [← same]
        simp [requested, here]

variable {κ ω : Type}

/- A log of the epoll_ctl calls, to say what they were answered over a run. -/
namespace Epoll

structure Ctl where
  op : CtlOp
  fd : Int
  answer : Option AddError
deriving DecidableEq, Repr

/-- The kernel with a log of its epoll_ctl calls, the newest first. -/
def Kernel.logged (K : Kernel κ ω) : Kernel (κ × List Ctl) ω where
  epollCtl k epfd op fd events :=
    let (kern, answer) := K.epollCtl k.1 epfd op fd events
    ((kern, ⟨op, fd, answer⟩ :: k.2), answer)
  epollWait k epfd size timeout :=
    let (kern, events) := K.epollWait k.1 epfd size timeout
    ((kern, k.2), events)
  epollCreate k hint :=
    let (kern, epfd) := K.epollCreate k.1 hint
    ((kern, k.2), epfd)
  close k fd := (K.close k.1 fd, k.2)
  realloc k n :=
    let (kern, ok) := K.realloc k.1 n
    ((kern, k.2), ok)
  getpid k := K.getpid k.1
  outside k change := (K.outside k.1 change, k.2)

def loggedSys (K : Kernel κ ω) (created : κ → Int → Prop) : EventSys (State (κ × List Ctl)) ω :=
  eventSys K.logged fun k epfd => created k.1 epfd ∧ k.2 = []

variable {K : Kernel κ ω} {created : κ → Int → Prop} {reg : κ → Int → Int → Option (BitVec 32)}
  {closes : κ → ω → Int → Prop}

theorem EpollSet.logged (sem : EpollSet K created reg closes) :
    EpollSet K.logged (fun k epfd => created k.1 epfd ∧ k.2 = []) (fun k => reg k.1) (fun k => closes k.1) where
  created k epfd fd start := sem.created k.1 epfd fd start.1
  add k := sem.add k.1
  mod k := sem.mod k.1
  del k := sem.del k.1
  absent k := sem.absent k.1
  wait k := sem.wait k.1
  realloc k := sem.realloc k.1
  closed k := sem.closed k.1
  kept k := sem.kept k.1

theorem unspoilt_logged : Unspoilt K.logged (fun k epfd => created k.1 epfd ∧ k.2 = [])
    (fun k => ∀ c ∈ k.2, ¬ (c.op = .add ∧ c.answer = some .eexist)) where
  created k epfd start := by simp [start.2]
  ctl k epfd op fd events clean fresh c member := by
    obtain rfl | member := List.mem_cons.mp member
    · exact fresh
    · exact clean c member
  wait _ _ _ _ clean := clean
  realloc _ _ clean := clean
  outside _ _ clean := clean

end Epoll

/-- The epoll set and io_q, at the end of a run. The kernel watches what is asked for and
nothing else, and every event that a blocked thread waits for is watched. -/
structure Watched (reg : κ → Int → Int → Option (BitVec 32)) (s : System (Epoll.State (κ × List Epoll.Ctl))) : Prop where
  table : ∀ fd, reg s.evt.kern.1 s.evt.data.epfd fd =
    if requested (polled s.vp) fd = 0 then none else some (requested (polled s.vp) fd)
  number : Sized (reg s.evt.kern.1 s.evt.data.epfd) s.evt.data.evtlistCnt
  waiting : ∀ t, (s.vp.thr t).context = .poll → (s.vp.thr t).state = .ioWait → ∀ pd ∈ (s.vp.pollq t).pds,
    ∃ mask, reg s.evt.kern.1 s.evt.data.epfd pd.fd = some mask ∧ pd.events.setWidth 32 &&& mask = pd.events.setWidth 32
  fresh : ∀ c ∈ s.evt.kern.2, ¬ (c.op = .add ∧ c.answer = some .eexist)

/-- The epoll set mirrors the interest of the threads. -/
theorem interest_mirrored (K : Epoll.Kernel κ ω) (created : κ → Int → Prop) (reg : κ → Int → Int → Option (BitVec 32))
    (closes : κ → ω → Int → Prop) (sem : Epoll.EpollSet K created reg closes)
    (hist : List (SysEvent (Epoll.State (κ × List Epoll.Ctl)) ω)) (s : System (Epoll.State (κ × List Epoll.Ctl)))
    (run : SysRun (Epoll.loggedSys K created) hist s)
    (undisturbed : ∀ e ∈ hist, Epoll.Undisturbed K.logged (fun k => closes k.1) e.pre e.label) : Watched reg s := by
  obtain ⟨⟨counted, quiet⟩, mirror⟩ := (Epoll.eventSys_mirrored sem.logged Epoll.unspoilt_logged).run run undisturbed
  have table : ∀ fd, reg s.evt.kern.1 s.evt.data.epfd fd = Epoll.wanted (requested (polled s.vp) fd) := by
    intro fd
    rw [mirror.exact_ fd (quiet fd) (by simp), counted.mask_requested]
  refine ⟨table, mirror.number, ?_, mirror.clean⟩
  intro t place waits pd member
  have inv := run.settled.inv
  have queued : t ∈ s.vp.ioQ := inv.ioQ_iff.mpr ⟨place, (inv.linked_poll ⟨place, waits⟩).1⟩
  have entry : pd ∈ polled s.vp := List.mem_flatMap.mpr ⟨t, queued, member⟩
  have named : requested (polled s.vp) pd.fd ≠ 0 := by
    rw [← counted.mask_requested]
    intro empty
    exact (counted.mask_eq_zero pd.fd).mp empty pd entry rfl
  obtain ⟨rest, part⟩ := requested_of_mem entry
  refine ⟨_, (table pd.fd).trans (Epoll.wanted_ne_zero named), ?_⟩
  rw [part]
  ext i
  simp +contextual

theorem Epoll.scripted_set : Epoll.EpollSet Epoll.scripted Epoll.startsEmpty (fun k _ fd => k.registered fd)
    (fun _ _ _ => False) where
  created _ _ fd empty := empty fd
  add k _ fd events gone := by
    left
    simp [Epoll.scripted, gone]
  mod k _ fd events there := by
    obtain ⟨mask, there⟩ := Option.ne_none_iff_exists'.mp there
    simp [Epoll.scripted, there]
  del k _ fd events there := by
    obtain ⟨mask, there⟩ := Option.ne_none_iff_exists'.mp there
    simp [Epoll.scripted, there]
  absent k _ op fd events other gone := by
    cases op with
    | add => exact absurd rfl other
    | mod => simp [Epoll.scripted, gone]
    | del => simp [Epoll.scripted, gone]
  wait k _ size timeout := by
    refine ⟨rfl, fun e reported => ?_⟩
    have watched := (List.mem_filter.mp reported).2
    intro gone
    simp [gone] at watched
  realloc _ _ := rfl
  closed _ _ _ _ impossible := impossible.elim
  kept _ _ _ _ _ := rfl

def Epoll.startedLogged : System (Epoll.State (Epoll.Scripted × List Epoll.Ctl)) where
  vp := Epoll.started.vp
  evt := ⟨Epoll.started.evt.data, (Epoll.started.evt.kern, [])⟩

theorem Epoll.startedLogged_ok : Started (Epoll.loggedSys Epoll.scripted Epoll.startsEmpty) Epoll.startedLogged :=
  ⟨⟨64, 4, ⟨fun _ => rfl, rfl⟩, rfl⟩, ⟨true, true, 0, some 0, some 1⟩, rfl, by decide⟩

/-- Threads 3 and 4 poll descriptor 5, thread 3 in two entries. It becomes writable; its
mask is made smaller at the end of dispatch, and descriptor 6 leaves the set. -/
theorem interest_mirrored_shared_descriptor :
    ∃ hist s, SysRun (Epoll.loggedSys Epoll.scripted Epoll.startsEmpty) hist s ∧
      (∀ e ∈ hist, Epoll.Undisturbed Epoll.scripted.logged (fun _ _ _ => False) e.pre e.label) ∧
      (s.vp.ioQ = [4] ∧ s.evt.data.evtlistCnt = 1 ∧ s.evt.kern.2 = [⟨.mod, 5, none⟩, ⟨.del, 6, none⟩,
        ⟨.mod, 5, none⟩, ⟨.add, 5, none⟩, ⟨.add, 6, none⟩] ∧ s.evt.kern.1.registered 5 = some Epoll.epollIn) ∧
      Watched (fun k _ fd => k.registered fd) s := by
  obtain ⟨hist, s, run, seen⟩ := Run.found (M := machine (Epoll.loggedSys Epoll.scripted Epoll.startsEmpty))
    [.call (.threadCreate (some 2) false none), .call (.threadCreate (some 3) false none),
      .call (.threadCreate (some 4) false none), .call (.usleep 9000), .resume, .call (.poll [⟨6, pollIn, 0⟩] 900),
      .resume, .call (.poll [⟨5, pollIn, 0⟩, ⟨5, pollOut, 0⟩] 900), .resume, .call (.poll [⟨5, pollIn, 0⟩] 900),
      .outside [(6, Epoll.epollIn), (5, Epoll.epollOut)], .idle 600 0]
    Epoll.startedLogged_ok
    (p := fun hist s => decide (s.vp.ioQ = [4] ∧ s.evt.data.evtlistCnt = 1 ∧ s.evt.kern.2 = [⟨.mod, 5, none⟩,
        ⟨.del, 6, none⟩, ⟨.mod, 5, none⟩, ⟨.add, 5, none⟩, ⟨.add, 6, none⟩] ∧
        s.evt.kern.1.registered 5 = some Epoll.epollIn) && hist.all fun e => e.pre.evt.data.pid = 1)
    (by decide +kernel)
  obtain ⟨results, pids⟩ := Bool.and_eq_true _ _ ▸ seen
  have undisturbed : ∀ e ∈ hist, Epoll.Undisturbed Epoll.scripted.logged (fun _ _ _ => False) e.pre e.label := by
    intro e member
    refine ⟨fun now time _ => of_decide_eq_true (List.all_eq_true.mp pids e member), ?_⟩
    intro change _ pd _ impossible
    exact impossible
  exact ⟨hist, s, run, undisturbed, of_decide_eq_true results,
    interest_mirrored _ _ _ _ Epoll.scripted_set hist s run undisturbed⟩

end StateThreads
