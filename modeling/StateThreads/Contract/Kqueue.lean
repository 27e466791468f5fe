import StateThreads.Contract.Agreement
import StateThreads.Contract.Polling
import StateThreads.Event.Oneshot

/-! The kqueue event system over whole runs: its counts are those of io_q whatever the
kernel answers, and the kernel watches for what the blocked threads wait for. -/
namespace StateThreads
open LabelledRun

variable {κ ω : Type}

/-- The data that the branch of dispatch after a fork begins with: those before the
dispatch, or what the branch has left when it is taken once more. -/
inductive Kqueue.Forks (K : Kqueue.Kernel κ ω) (d : Kqueue.Data) : Kqueue.Data → Prop
  | first : Forks K d d
  | again {d' : Kqueue.Data} {kq : Int} {kern : κ} {ioq : List (List PollFd)} {s : Kqueue.State κ} : Forks K d d' →
      Kqueue.register K { d' with addlist := [] } kq kern ioq = some s → Forks K d s.data

structure KqueueAccounts (K : Kqueue.Kernel κ ω) (s : System (Kqueue.State κ)) : Prop where
  reads : ∀ fd, s.evt.data.refCnt ⟨fd, .read⟩ = (polled s.vp).countP fun pd => pd.fd = fd && pd.reads
  writes : ∀ fd, s.evt.data.refCnt ⟨fd, .write⟩ = (polled s.vp).countP fun pd => pd.fd = fd && pd.writes
  silent : ∀ fd, s.evt.data.revents fd = 0
  /-- Once pollset_add has made its checks and has room, addlist_add does not fail. -/
  asserted : ∀ pds s₁ s₂, Kqueue.checkLoop K pds s.evt = some (s₁, none) →
    Kqueue.reserve K s₁ pds.length = some (s₂, true) → (Kqueue.addLoop s₂.data pds).isSome
  /-- Nor does it when dispatch registers the pollqs again, with those of front behind it. -/
  reasserted : ∀ d, Kqueue.Forks K s.evt.data d → ∀ kq kern front s₀,
    Kqueue.register K { d with addlist := [] } kq kern front = some s₀ →
    ∀ pds s₁ s₂, Kqueue.checkLoop K pds s₀ = some (s₁, none) →
      Kqueue.reserve K s₁ pds.length = some (s₂, true) → (Kqueue.addLoop s₂.data pds).isSome
  removed : ∀ t, (s.vp.thr t).context = .poll → t ∉ s.vp.ioQ → ∃ pd ∈ (s.vp.pollq t).pds, pd.revents ≠ 0
  close : ∀ fd, Kqueue.fdClose s.evt.data fd = some .ebusy ↔ ∃ t ∈ s.vp.ioQ, ∃ pd ∈ (s.vp.pollq t).pds, pd.fd = fd

theorem Kqueue.tells (K : Kqueue.Kernel κ ω) (created : κ → Int → Prop) : Tells (Kqueue.eventSys K created) := by
  intro evt pds found
  simpa [Kqueue.eventSys, Kqueue.visit] using found

namespace Kqueue

variable {K : Kernel κ ω} {enough : Int → Int → Prop} {held : κ → Int → Knote → Prop}

theorem knotes_count (pd : PollFd) (k : Knote) : (knotes pd).count k =
    if pd.fd = k.ident ∧ (k.filter = .read ∧ pd.reads = true ∨ k.filter = .write ∧ pd.writes = true) then 1 else 0 := by
  obtain ⟨fd, filter⟩ := k
  unfold knotes
  by_cases same : pd.fd = fd <;> cases filter <;> cases pd.reads <;> cases pd.writes <;> simp [same]

theorem tally_countP (ps : List PollFd) (k : Knote) : tally ps k = ps.countP fun pd =>
    pd.fd = k.ident ∧ (k.filter = .read ∧ pd.reads = true ∨ k.filter = .write ∧ pd.writes = true) := by
  unfold tally
  congr 1
  induction ps with
  | nil => rfl
  | cons pd ps ih =>
    rw [List.flatMap_cons, List.count_append, ih, knotes_count, List.countP_cons, Nat.add_comm]
    simp

theorem Valid.asks {pd : PollFd} (valid : Valid pd) : pd.reads = true ∨ pd.writes = true := by
  obtain ⟨-, some_, known⟩ := valid
  by_contra none
  simp only [not_or, PollFd.reads, PollFd.writes, decide_eq_true_eq, ne_eq, not_not] at none
  apply some_
  have split : pd.events = (pd.events &&& pollIn) ||| (pd.events &&& pollOut) |||
      (pd.events &&& ~~~(pollIn ||| pollOut)) := by
    rw [← BitVec.and_or_distrib_left, ← BitVec.and_or_distrib_left,
      show pollIn ||| pollOut ||| ~~~(pollIn ||| pollOut) = BitVec.allOnes 16 from rfl, BitVec.and_allOnes]
  rw [split, none.1, none.2, known]
  rfl

theorem Valid.knotes_ne_nil {pd : PollFd} (valid : Valid pd) : knotes pd ≠ [] := by
  obtain h | h := valid.asks <;> simp [knotes, h]

theorem Kept.asserted {s s₁ s₂ : State κ} {ps pds : List PollFd} (kept : Kept K held s ps)
    (checked : checkLoop K pds s = some (s₁, none)) (reserved : reserve K s₁ pds.length = some (s₂, true)) :
    (addLoop s₂.data pds).isSome := by
  obtain ⟨grown, -⟩ := checkLoop_spec kept.blank checked
  obtain ⟨wider, fits, -⟩ := reserve_spec (kept.size.le.trans grown.room) reserved
  have same : s₂.data.addlist = s₁.data.addlist := by rw [wider.rest]
  have number := knotes_length pds
  have enough := fits rfl
  have room : s₂.data.addlist.length + (pds.flatMap knotes).length ≤ s₂.data.addlistSize := by
    rw [same]
    omega
  obtain ⟨d, run⟩ := addLoop_fits room
  rw [addLoop, run]
  rfl

theorem Counted.close {d : Data} {ps : List PollFd} (counted : Counted d ps) (fd : Int) :
    fdClose d fd = some .ebusy ↔ ∃ pd ∈ ps, pd.fd = fd := by
  have positive : ∀ k, d.refCnt k ≠ 0 ↔ ∃ pd ∈ ps, k ∈ knotes pd := by
    intro k
    rw [counted.counts, ← tally_pos_iff]
    have := tally_nonneg ps k
    omega
  unfold fdClose
  simp only [positive]
  constructor
  · intro busy
    split at busy
    · rename_i found
      obtain ⟨pd, member, asks⟩ | ⟨pd, member, asks⟩ := found <;> exact ⟨pd, member, (knotes_ident asks).symm⟩
    · cases busy
  · rintro ⟨pd, member, rfl⟩
    rw [if_pos]
    obtain reads | writes := (counted.inside pd member).1.asks
    · exact .inl ⟨pd, member, by simp [knotes, reads]⟩
    · exact .inr ⟨pd, member, by simp [knotes, writes]⟩

theorem Forks.kept (holds : Holds K enough held) {s : State κ} {ps : List PollFd} (kept : Kept K held s ps) {d : Data}
    (forks : Forks K s.data d) : ∃ kern qs, Kept K held ⟨d, kern⟩ qs := by
  induction forks with
  | first => exact ⟨s.kern, ps, kept⟩
  | again before run ih =>
    obtain ⟨kern, qs, kept⟩ := ih
    obtain ⟨rs, kept'⟩ := kept.reregistered holds run
    exact ⟨_, rs, kept'⟩

theorem holds_trivial (K : Kernel κ ω) : Holds K (fun _ _ => True) fun _ _ _ => True := by
  constructor <;> intros <;> trivial

end Kqueue

/-- Whatever the kernel answers, the counts are the numbers of entries on io_q, no mark is
left by dispatch, and the assertion of addlist_add holds. In a child this needs the memory
to register all descriptors again. -/
theorem kqueue_accounting (K : Kqueue.Kernel κ ω) (created : κ → Int → Prop)
    (steady : ∀ kern kq changes size time, K.getpid (K.kevent kern kq changes size time).1 = K.getpid kern)
    (hist : List (SysEvent (Kqueue.State κ) ω)) (s : System (Kqueue.State κ))
    (run : SysRun (Kqueue.eventSys K created) hist s)
    (recounts : ∀ e ∈ hist, ∀ now time, e.label = .idle now time →
      e.pre.evt.data.pid = K.getpid e.pre.evt.kern ∨ Kqueue.Memory K) : KqueueAccounts K s := by
  have fair : ∀ e ∈ hist, Kqueue.Fair K (fun _ _ => True) (fun _ _ _ => True) e.pre e.label := by
    intro e member
    have recounts := recounts e member
    generalize e.label = l at recounts
    cases l with
    | idle now time =>
      obtain own | memory := recounts now time rfl
      · exact .inl ⟨own, trivial⟩
      · exact .inr memory
    | outside change => exact fun _ _ _ _ _ => trivial
    | call op => trivial
    | resume => trivial
  have kept := (Kqueue.eventSys_keeps (Kqueue.holds_trivial K) created steady).run run fair
  have inv := run.settled.inv
  refine ⟨fun fd => ?_, fun fd => ?_, kept.silent, fun pds s₁ s₂ => kept.asserted, ?_, fun t place away => ?_, fun fd => ?_⟩
  · rw [kept.counted.counts, Kqueue.tally_countP]
    congr 2
    funext pd
    simp
  · rw [kept.counted.counts, Kqueue.tally_countP]
    congr 2
    funext pd
    simp
  · intro d forks kq kern front s₀ again pds s₁ s₂ checked reserved
    obtain ⟨kern', qs, kept'⟩ := forks.kept (Kqueue.holds_trivial K) kept
    obtain ⟨rs, kept₀⟩ := kept'.reregistered (Kqueue.holds_trivial K) again
    exact kept₀.asserted checked reserved
  · apply run.told (Kqueue.tells K created) t place
    by_contra on
    exact away (inv.ioQ_iff.mpr ⟨place, by simpa using on⟩)
  · rw [kept.counted.close]
    simp only [polled, List.mem_flatMap]
    constructor
    · rintro ⟨pd, ⟨t, queued, member⟩, same⟩
      exact ⟨t, queued, pd, member, same⟩
    · rintro ⟨t, queued, pd, member, same⟩
      exact ⟨pd, ⟨t, queued, member⟩, same⟩

/-- The semantics of kqueue. A queue is not inherited by a child, so own says of which
queues the process has; reg are the knotes that a queue watches. The errors of changes are
reported in the list of results. A call that is interrupted has made its changes. -/
structure Kqueue.KqueueSet (K : Kqueue.Kernel κ ω) (own : κ → Int → Prop) (reg : κ → Int → Kqueue.Knote → Prop) : Prop where
  realloc : ∀ kern n kq, (own (K.realloc kern n).1 kq → own kern kq) ∧
    ∀ k, reg kern kq k → reg (K.realloc kern n).1 kq k
  kevent : ∀ kern kq changes size time, own (K.kevent kern kq changes size time).1 kq → own kern kq
  served : ∀ kern kq changes size time list k, own kern kq → (∀ c ∈ changes, c.action = .add) →
    (K.kevent kern kq changes size time).2 = .events list → ⟨k, .add⟩ ∈ changes ∨ reg kern kq k →
    (∀ e ∈ list, e.knote ≠ k) → reg (K.kevent kern kq changes size time).1 kq k
  failed : ∀ kern kq changes size time errno k, own kern kq → (∀ c ∈ changes, c.action = .add) →
    (K.kevent kern kq changes size time).2 = .failed errno → changes.length ≤ size →
    ⟨k, .add⟩ ∈ changes ∨ reg kern kq k → reg (K.kevent kern kq changes size time).1 kq k
  deleted : ∀ kern kq dels k, own kern kq → (∀ c ∈ dels, c.action = .delete ∧ c.knote ≠ k) → reg kern kq k →
    reg (K.kevent kern kq dels 0 none).1 kq k
  uncreated : ∀ kern, (K.kqueue kern).2 = none → ¬ own (K.kqueue kern).1 (-1)
  getpid : ∀ kern kq changes size time, K.getpid (K.kevent kern kq changes size time).1 = K.getpid kern

/-- The queue watches k, if the process has it. -/
def Kqueue.Watches (own : κ → Int → Prop) (reg : κ → Int → Kqueue.Knote → Prop) (kern : κ) (kq : Int)
    (k : Kqueue.Knote) : Prop := own kern kq → reg kern kq k

theorem Kqueue.KqueueSet.holds {K : Kqueue.Kernel κ ω} {own : κ → Int → Prop} {reg : κ → Int → Kqueue.Knote → Prop}
    (sem : Kqueue.KqueueSet K own reg) : Kqueue.Holds K (fun changes size => changes ≤ size) (Kqueue.Watches own reg) where
  fits _ _ h := h
  realloc kern n kq k watches mine := (sem.realloc kern n kq).2 k (watches ((sem.realloc kern n kq).1 mine))
  served kern kq changes size time list k adds answer before unreported mine := by
    have mine := sem.kevent _ _ _ _ _ mine
    refine sem.served _ _ _ _ _ _ _ mine adds answer ?_ unreported
    exact before.imp_right fun watches => watches mine
  failed kern kq changes size time errno k adds answer fits before mine := by
    have mine := sem.kevent _ _ _ _ _ mine
    refine sem.failed _ _ _ _ _ _ _ mine adds answer fits ?_
    exact before.imp_right fun watches => watches mine
  deleted kern kq dels k deletes watches mine := by
    have mine := sem.kevent _ _ _ _ _ mine
    exact sem.deleted _ _ _ _ mine deletes (watches mine)
  uncreated kern k none mine := absurd mine (sem.uncreated kern none)

/-- Every filter that a blocked thread needs is on the addlist, which the next kevent is
handed, or the queue of the process watches it. -/
theorem kqueue_interest (K : Kqueue.Kernel κ ω) (created : κ → Int → Prop) (own : κ → Int → Prop)
    (reg : κ → Int → Kqueue.Knote → Prop) (sem : Kqueue.KqueueSet K own reg)
    (hist : List (SysEvent (Kqueue.State κ) ω)) (s : System (Kqueue.State κ))
    (run : SysRun (Kqueue.eventSys K created) hist s)
    (fair : ∀ e ∈ hist, Kqueue.Fair K (fun changes size => changes ≤ size) (Kqueue.Watches own reg) e.pre e.label) :
    s.evt.data.addlist.length ≤ s.evt.data.addlistSize ∧
    ∀ t, (s.vp.thr t).context = .poll → (s.vp.thr t).state = .ioWait → ∀ pd ∈ (s.vp.pollq t).pds,
      Kqueue.knotes pd ≠ [] ∧ ∀ k ∈ Kqueue.knotes pd, ⟨k, .add⟩ ∈ s.evt.data.addlist ∨
        (own s.evt.kern s.evt.data.kq → reg s.evt.kern s.evt.data.kq k) := by
  have kept := (Kqueue.eventSys_keeps sem.holds created sem.getpid).run run fair
  refine ⟨kept.room, fun t place waits pd member => ?_⟩
  have inv := run.settled.inv
  have queued : t ∈ s.vp.ioQ := inv.ioQ_iff.mpr ⟨place, (inv.linked_poll ⟨place, waits⟩).1⟩
  have entry : pd ∈ polled s.vp := List.mem_flatMap.mpr ⟨t, queued, member⟩
  refine ⟨(kept.counted.inside pd entry).1.knotes_ne_nil, fun k asks => kept.pending k ?_⟩
  rw [kept.counted.counts]
  exact Kqueue.tally_pos_iff.mpr ⟨pd, entry, asks⟩

/- The walk of a dispatch. -/

namespace Kqueue

variable {K : Kernel κ ω} {ready : Int → BitVec 16}

theorem marks_origin {list : List Report} {revents : Int → BitVec 16} {fd : Int} {bits : BitVec 16}
    (set : list.foldl mark revents fd &&& bits ≠ 0) :
    revents fd &&& bits ≠ 0 ∨ ∃ e ∈ list, e.knote.ident = fd ∧ e.bits &&& bits ≠ 0 := by
  induction list generalizing revents with
  | nil => exact .inl set
  | cons e list ih =>
    rw [List.foldl_cons] at set
    obtain marked | ⟨r, member, found⟩ := ih set
    · by_cases here : fd = e.knote.ident
      · subst here
        rw [mark, Function.update_self] at marked
        by_cases old : revents e.knote.ident &&& bits = 0
        · refine .inr ⟨e, List.mem_cons_self .., rfl, fun none => marked ?_⟩
          rw [BitVec.and_comm, BitVec.and_or_distrib_left, BitVec.and_comm bits, BitVec.and_comm bits, old, none]
          rfl
        · exact .inl old
      · rw [mark, Function.update_of_ne here] at marked
        exact .inl marked
    · exact .inr ⟨r, List.mem_cons_of_mem _ member, found⟩

theorem Filter.bit_and {f g : Filter} : f.bit &&& g.bit ≠ 0 ↔ f = g := by
  cases f <;> cases g <;> decide

def Shows (ready : Int → BitVec 16) (d : Data) (pd : PollFd) : Prop :=
  d.revents pd.fd &&& ~~~(pollIn ||| pollOut) = 0 ∧
    ∀ k ∈ knotes pd, (d.revents k.ident &&& k.filter.bit ≠ 0 ↔ ready k.ident &&& k.filter.bit ≠ 0)

theorem Valid.and_ready {pd : PollFd} (valid : Valid pd) (b : BitVec 16) : pd.events &&& b =
    (if pd.reads ∧ b &&& pollIn ≠ 0 then pollIn else 0) ||| (if pd.writes ∧ b &&& pollOut ≠ 0 then pollOut else 0) := by
  have known : pd.events &&& ~~~(pollIn ||| pollOut ||| pollPri) = 0 := by
    have part : ~~~(pollIn ||| pollOut ||| pollPri) = ~~~(pollIn ||| pollOut) &&& ~~~pollPri := rfl
    rw [part, ← BitVec.and_assoc, valid.known]
    rfl
  have noPri : pd.excepts = false := by
    have part : pollPri = ~~~(pollIn ||| pollOut) &&& pollPri := rfl
    have none : pd.events &&& pollPri = 0 := by
      rw [part, ← BitVec.and_assoc, valid.known]
      rfl
    simp [PollFd.excepts, none]
  have bits := (Epoll.Valid.mk valid.fd valid.some_ known).and_bits b
  simpa [noPri] using bits

theorem Shows.look {d : Data} {pd : PollFd} (shows : Shows ready d pd) (valid : Valid pd) :
    look d pd = pd.answer ready := by
  obtain ⟨clean, same⟩ := shows
  have reads : (pd.reads = true ∧ d.revents pd.fd &&& pollIn ≠ 0) ↔ (pd.reads = true ∧ ready pd.fd &&& pollIn ≠ 0) := by
    refine and_congr_right fun asks => same ⟨pd.fd, .read⟩ ?_
    simp [knotes, asks]
  have writes : (pd.writes = true ∧ d.revents pd.fd &&& pollOut ≠ 0) ↔
      (pd.writes = true ∧ ready pd.fd &&& pollOut ≠ 0) := by
    refine and_congr_right fun asks => same ⟨pd.fd, .write⟩ ?_
    simp [knotes, asks]
  have result : (Kqueue.look d pd).revents = pd.events &&& ready pd.fd := by
    simp only [Kqueue.look, clean, reads, writes]
    rw [valid.and_ready]
    simp
  rw [PollFd.answer, ← result]
  rfl

def At (ready : Int → BitVec 16) (s : State κ) (rest : List (List PollFd)) : Prop :=
  ∀ pds ∈ rest, ∀ pd ∈ pds, Valid pd ∧ Shows ready s.data pd

theorem At.visit {s : State κ} {pds : List PollFd} {rest : List (List PollFd)} (at_ : At ready s (pds :: rest)) :
    pds.map (Kqueue.look s.data) = pds.map (PollFd.answer ready) := by
  apply List.map_congr_left
  intro pd member
  obtain ⟨valid, shows⟩ := at_ pds (List.mem_cons_self ..) pd member
  exact shows.look valid

theorem eventSys_reports (K : Kernel κ ω) (created : κ → Int → Prop) : Reports (eventSys K created) ready (At ready) where
  asks evt pds rest at_ := by
    rw [show ((eventSys K created).visit evt pds).2.1 = pds.map (look evt.data) from rfl, at_.visit, answer_asks]
  notify evt pds rest at_ := by
    rw [show ((eventSys K created).visit evt pds).2.2 = (pds.map (look evt.data)).any fun pd => pd.revents ≠ 0 from rfl,
      at_.visit, answer_any]
  told evt pds rest at_ wake := by
    refine ⟨at_.visit, fun others there pd member => ?_⟩
    obtain ⟨valid, shows⟩ := at_ others (List.mem_cons_of_mem _ there) pd member
    have same := (releases_released (K := K) fired ((pds.map (PollFd.answer ready)).flatMap knotes) evt).rest
    refine ⟨valid, ?_⟩
    simp only [eventSys, Kqueue.visit, withdraw, Shows]
    rw [same]
    exact shows
  stays evt pds rest at_ _ := fun others there => at_ others (List.mem_cons_of_mem _ there)

end Kqueue

/-- In every state that a run reaches, a dispatch to which kevent reports the knotes that are
watched and ready wakes exactly the threads that have asked for a ready event, in the order
of io_q, and gives each entry its result. -/
theorem kqueue_dispatch (K : Kqueue.Kernel κ ω) (created : κ → Int → Prop) (own : κ → Int → Prop)
    (reg : κ → Int → Kqueue.Knote → Prop) (sem : Kqueue.KqueueSet K own reg)
    (hist : List (SysEvent (Kqueue.State κ) ω)) (s : System (Kqueue.State κ))
    (run : SysRun (Kqueue.eventSys K created) hist s)
    (fair : ∀ e ∈ hist, Kqueue.Fair K (fun changes size => changes ≤ size) (Kqueue.Watches own reg) e.pre e.label)
    (idle : (s.vp.thr s.vp.current).context = .idle) (mine : own s.evt.kern s.evt.data.kq)
    (ready : Int → BitVec 16) (list : List Kqueue.Report)
    (answer : (K.kevent s.evt.kern s.evt.data.kq s.evt.data.addlist s.evt.data.evtlistSize
      (Kqueue.timespec (minTimeout s.vp))).2 = .events list)
    (exactly : ∀ k, (∃ e ∈ list, e.knote = k) ↔ (⟨k, .add⟩ ∈ s.evt.data.addlist ∨ reg s.evt.kern s.evt.data.kq k) ∧
      ready k.ident &&& k.filter.bit ≠ 0)
    (clean : ∀ e ∈ list, e.error = none) :
    ∃ evt' vp', dispatch (Kqueue.eventSys K created) s.evt s.vp = some (evt', vp') ∧ Notified ready s.vp vp' := by
  have kept := (Kqueue.eventSys_keeps sem.holds created sem.getpid).run run fair
  have entries : ∀ pds ∈ s.vp.ioQ.map (fun t => (s.vp.pollq t).pds), ∀ pd ∈ pds, pd ∈ polled s.vp := by
    intro pds there pd member
    rw [polled_flatten]
    exact List.mem_flatten.mpr ⟨pds, there, member⟩
  have reported : ∀ pd ∈ polled s.vp, ∀ k ∈ Kqueue.knotes pd,
      ((∃ e ∈ list, e.knote = k) ↔ ready k.ident &&& k.filter.bit ≠ 0) := by
    intro pd member k asks
    rw [exactly, and_iff_right_iff_imp]
    intro _
    have positive : 0 < s.evt.data.refCnt k := by
      rw [kept.counted.counts]
      exact Kqueue.tally_pos_iff.mpr ⟨pd, member, asks⟩
    exact (kept.pending k positive).imp_right fun watches => watches mine
  generalize result : K.kevent s.evt.kern s.evt.data.kq s.evt.data.addlist s.evt.data.evtlistSize
    (Kqueue.timespec (minTimeout s.vp)) = r at answer
  obtain ⟨kern, said⟩ := r
  obtain rfl : said = .events list := answer
  by_cases quiet : list = []
  · have waited : Kqueue.wait K s.evt (minTimeout s.vp) (s.vp.ioQ.map fun t => (s.vp.pollq t).pds) =
        some (⟨{ s.evt.data with addlist := [] }, kern⟩, false) := by
      simp only [Kqueue.wait, Kqueue.waitLoop, result, quiet, if_true]
    refine dispatch_notified (Kqueue.eventSys_reports K created) run.settled idle waited ?_
    intro pds there
    rw [wakes, List.any_eq_false]
    intro pd member
    have entry := entries pds there pd member
    have none : (pd.events &&& ready pd.fd) = 0 := by
      rw [(kept.counted.inside pd entry).1.and_ready]
      have unready : ∀ k ∈ Kqueue.knotes pd, ready k.ident &&& k.filter.bit = 0 := by
        intro k asks
        by_contra set
        obtain ⟨e, member, -⟩ := (reported pd entry k asks).mpr set
        simp [quiet] at member
      rw [if_neg, if_neg]
      · rfl
      · rintro ⟨asks, set⟩
        exact set (unready ⟨pd.fd, .write⟩ (by simp [Kqueue.knotes, asks]))
      · rintro ⟨asks, set⟩
        exact set (unready ⟨pd.fd, .read⟩ (by simp [Kqueue.knotes, asks]))
    simp [none]
  · have waited : Kqueue.wait K s.evt (minTimeout s.vp) (s.vp.ioQ.map fun t => (s.vp.pollq t).pds) =
        some (⟨{ s.evt.data with
          addlist := [], evtlist := list, revents := list.foldl Kqueue.mark s.evt.data.revents, dellist := [] }, kern⟩,
          true) := by
      simp only [Kqueue.wait, Kqueue.waitLoop, result, quiet, if_false]
    refine dispatch_notified (Kqueue.eventSys_reports K created) run.settled idle waited ?_
    intro pds there pd member
    have entry := entries pds there pd member
    refine ⟨(kept.counted.inside pd entry).1, ?_, fun k asks => ?_⟩
    · by_contra dirty
      obtain old | ⟨e, there, -, bits⟩ := Kqueue.marks_origin dirty
      · simp [kept.silent] at old
      · apply bits
        rw [Kqueue.Report.bits, clean e there]
        cases e.knote.filter <;> decide
    · rw [← reported pd entry k asks]
      constructor
      · intro set
        obtain old | ⟨e, there, ident, bits⟩ := Kqueue.marks_origin set
        · simp [kept.silent] at old
        · have same : e.bits = e.knote.filter.bit := by
            rw [Kqueue.Report.bits, clean e there]
            simp
          rw [same, Kqueue.Filter.bit_and] at bits
          refine ⟨e, there, ?_⟩
          cases h : e.knote
          rw [h] at ident bits
          cases k
          simp_all
      · rintro ⟨e, there, rfl⟩
        exact Kqueue.marks_fired there _

/- A kernel to run the event system on. -/

structure Kqueue.Scripted where
  queue : Option Int
  registered : List Kqueue.Knote
  ready : List Kqueue.Knote
  pid : Nat

inductive Kqueue.Outside where
  | ready (knotes : List Kqueue.Knote)
  | fork

def Kqueue.change (registered : List Kqueue.Knote) (c : Kqueue.Change) : List Kqueue.Knote :=
  if c.action = .add then c.knote :: registered else registered.filter fun k => k ≠ c.knote

def Kqueue.Scripted.outside (k : Kqueue.Scripted) : Kqueue.Outside → Kqueue.Scripted
  | .ready knotes => { k with ready := knotes }
  | .fork => { k with queue := none, pid := k.pid + 1 }

/-- What is ready and watched is reported and watched no longer. -/
def Kqueue.scripted : Kqueue.Kernel Kqueue.Scripted Kqueue.Outside where
  kevent k kq changes size _ :=
    if k.queue = some kq then
      let registered := changes.foldl Kqueue.change k.registered
      let list := (k.ready.filter fun n => n ∈ registered).take size.toNat
      ({ k with registered := registered.filter fun n => n ∉ list }, .events (list.map fun n => ⟨n, none⟩))
    else (k, .failed .ebadf)
  kqueue k := ({ k with queue := some 9, registered := [] }, some 9)
  realloc k _ := (k, true)
  getpid k := k.pid
  signals _ := 0
  outside := Kqueue.Scripted.outside

def Kqueue.hasQueue (k : Kqueue.Scripted) (kq : Int) : Prop := k.queue = some kq

theorem Kqueue.changes_mem {changes : List Kqueue.Change} {registered : List Kqueue.Knote} {n : Kqueue.Knote}
    (keeps : ∀ c ∈ changes, c.action = .add ∨ c.knote ≠ n) (before : ⟨n, .add⟩ ∈ changes ∨ n ∈ registered) :
    n ∈ changes.foldl Kqueue.change registered := by
  induction changes generalizing registered with
  | nil => simpa using before
  | cons c changes ih =>
    rw [List.foldl_cons]
    apply ih fun d member => keeps d (List.mem_cons_of_mem _ member)
    unfold Kqueue.change
    obtain listed | old := before
    · obtain rfl | later := List.mem_cons.mp listed
      · exact .inr (by simp)
      · exact .inl later
    · right
      split
      · exact List.mem_cons_of_mem _ old
      · rename_i delete
        have other := (keeps c (List.mem_cons_self ..)).resolve_left delete
        simpa [old] using Ne.symm other

theorem Kqueue.scripted_set : Kqueue.KqueueSet Kqueue.scripted Kqueue.hasQueue fun k _ n => n ∈ k.registered where
  realloc _ _ _ := ⟨id, fun _ => id⟩
  kevent kern kq changes size time mine := by
    by_contra away
    have same : (Kqueue.scripted.kevent kern kq changes size time).1 = kern := by
      unfold Kqueue.hasQueue at away
      simp [Kqueue.scripted, away]
    rw [same] at mine
    exact away mine
  served kern kq changes size time list n mine adds answer before unreported := by
    unfold Kqueue.hasQueue at mine
    simp only [Kqueue.scripted, mine, if_true, Kqueue.Answer.events.injEq] at answer ⊢
    rw [List.mem_filter]
    refine ⟨Kqueue.changes_mem (fun c member => .inl (adds c member)) before, ?_⟩
    rw [decide_eq_true_eq]
    intro fired
    refine unreported ⟨n, none⟩ ?_ rfl
    rw [← answer]
    exact List.mem_map_of_mem fired
  failed kern kq changes size time errno n mine _ answer := by
    unfold Kqueue.hasQueue at mine
    simp [Kqueue.scripted, mine] at answer
  deleted kern kq dels n mine deletes before := by
    unfold Kqueue.hasQueue at mine
    simp only [Kqueue.scripted, mine, if_true, Int.toNat_zero, List.take_zero, List.not_mem_nil, not_false_eq_true,
      decide_true, List.filter_true]
    exact Kqueue.changes_mem (fun c member => .inr (deletes c member).2) (.inr before)
  uncreated _ impossible := by cases impossible
  getpid kern kq changes size time := by
    simp only [Kqueue.scripted]
    split <;> rfl

theorem Kqueue.scripted_fair (s : System (Kqueue.State Kqueue.Scripted)) (l : Label Kqueue.Outside) :
    Kqueue.Fair Kqueue.scripted (fun changes size => changes ≤ size)
      (Kqueue.Watches Kqueue.hasQueue fun k _ n => n ∈ k.registered) s l := by
  cases l with
  | idle now time => exact .inr fun _ _ => rfl
  | outside change =>
    intro pd _ n _ watches mine
    cases change with
    | ready knotes => exact watches mine
    | fork => cases mine
  | call op => trivial
  | resume => trivial

def Kqueue.started : System (Kqueue.State Kqueue.Scripted) where
  vp := (stInit Vp.boot ⟨true, true, 0, some 0, some 1⟩).getD Vp.boot
  evt := ⟨Kqueue.init 3 1, ⟨some 3, [], [], 1⟩⟩

theorem Kqueue.started_ok : Started (Kqueue.eventSys Kqueue.scripted Kqueue.hasQueue) Kqueue.started :=
  ⟨⟨3, rfl, rfl⟩, ⟨true, true, 0, some 0, some 1⟩, rfl, by decide⟩

/-- Threads 2 and 3 read descriptor 5 and thread 4 reads it or writes 6. -/
def Kqueue.sharing : List (Label Kqueue.Outside) :=
  [.call (.threadCreate (some 2) false none), .call (.threadCreate (some 3) false none),
    .call (.threadCreate (some 4) false none), .call (.usleep 9000), .resume, .call (.poll [⟨5, pollIn, 0⟩] 9000),
    .resume, .call (.poll [⟨5, pollIn, 0⟩] 9000), .resume, .call (.poll [⟨5, pollIn, 0⟩, ⟨6, pollOut, 0⟩] 9000),
    .outside (.ready [⟨6, .write⟩]), .idle 600 0, .resume, .call (.poll [⟨7, pollIn ||| pollOut, 0⟩] 9000),
    .outside .fork, .outside (.ready [⟨7, .read⟩]), .idle 700 0]

/-- Descriptor 6 fires, then the process forks, and in the child 7 does. -/
theorem kqueue_accounting_fork : ∃ hist s, SysRun (Kqueue.eventSys Kqueue.scripted Kqueue.hasQueue) hist s ∧
    (s.vp.ioQ = [2, 3] ∧ s.evt.data.kq = 9 ∧ s.evt.kern.registered = [⟨5, .read⟩] ∧
      Kqueue.fdClose s.evt.data 7 = none) ∧ KqueueAccounts Kqueue.scripted s := by
  obtain ⟨hist, s, run, seen⟩ := Run.found (M := machine (Kqueue.eventSys Kqueue.scripted Kqueue.hasQueue))
    Kqueue.sharing Kqueue.started_ok
    (p := fun _ s => decide (s.vp.ioQ = [2, 3] ∧ s.evt.data.kq = 9 ∧ s.evt.kern.registered = [⟨5, .read⟩] ∧
      Kqueue.fdClose s.evt.data 7 = none)) (by decide +kernel)
  exact ⟨hist, s, run, of_decide_eq_true seen, kqueue_accounting _ _ Kqueue.scripted_set.getpid hist s run
    fun _ _ _ _ _ => .inr fun _ _ => rfl⟩

theorem kqueue_interest_fork : ∃ hist s, SysRun (Kqueue.eventSys Kqueue.scripted Kqueue.hasQueue) hist s ∧
    (s.vp.ioQ = [2, 3] ∧ s.evt.data.addlist = [] ∧ s.evt.kern.queue = some s.evt.data.kq) ∧
    s.evt.data.addlist.length ≤ s.evt.data.addlistSize ∧
    ∀ t, (s.vp.thr t).context = .poll → (s.vp.thr t).state = .ioWait → ∀ pd ∈ (s.vp.pollq t).pds,
      Kqueue.knotes pd ≠ [] ∧ ∀ k ∈ Kqueue.knotes pd, ⟨k, .add⟩ ∈ s.evt.data.addlist ∨
        (Kqueue.hasQueue s.evt.kern s.evt.data.kq → k ∈ s.evt.kern.registered) := by
  obtain ⟨hist, s, run, seen⟩ := Run.found (M := machine (Kqueue.eventSys Kqueue.scripted Kqueue.hasQueue))
    Kqueue.sharing Kqueue.started_ok
    (p := fun _ s => decide (s.vp.ioQ = [2, 3] ∧ s.evt.data.addlist = [] ∧ s.evt.kern.queue = some s.evt.data.kq))
    (by decide +kernel)
  exact ⟨hist, s, run, of_decide_eq_true seen, kqueue_interest _ _ _ _ Kqueue.scripted_set hist s run
    fun e _ => Kqueue.scripted_fair e.pre e.label⟩

def Kqueue.sixOut (fd : Int) : BitVec 16 := if fd = 6 then pollOut else 0

/-- Before the first dispatch of the same run. Thread 4 is woken, the others stay. -/
theorem kqueue_dispatch_shared_descriptor : ∃ hist s evt' vp',
    SysRun (Kqueue.eventSys Kqueue.scripted Kqueue.hasQueue) hist s ∧ s.vp.ioQ = [2, 3, 4] ∧
    dispatch (Kqueue.eventSys Kqueue.scripted Kqueue.hasQueue) s.evt s.vp = some (evt', vp') ∧
    Notified Kqueue.sixOut s.vp vp' := by
  obtain ⟨hist, s, run, seen⟩ := Run.found (M := machine (Kqueue.eventSys Kqueue.scripted Kqueue.hasQueue))
    (Kqueue.sharing.take 11) Kqueue.started_ok
    (p := fun _ s => decide (s.vp.ioQ = [2, 3, 4] ∧ (s.vp.thr s.vp.current).context = .idle ∧
      s.evt.kern.queue = some s.evt.data.kq ∧ s.evt.kern.registered = [] ∧
      s.evt.data.addlist = [⟨⟨5, .read⟩, .add⟩, ⟨⟨6, .write⟩, .add⟩] ∧
      (Kqueue.scripted.kevent s.evt.kern s.evt.data.kq s.evt.data.addlist s.evt.data.evtlistSize
        (Kqueue.timespec (minTimeout s.vp))).2 = .events [⟨⟨6, .write⟩, none⟩])) (by decide +kernel)
  obtain ⟨queue, idle, mine, fresh, adds, answer⟩ := of_decide_eq_true seen
  have exactly : ∀ k, (∃ e ∈ [(⟨⟨6, .write⟩, none⟩ : Kqueue.Report)], e.knote = k) ↔
      (⟨k, .add⟩ ∈ s.evt.data.addlist ∨ k ∈ s.evt.kern.registered) ∧ Kqueue.sixOut k.ident &&& k.filter.bit ≠ 0 := by
    intro k
    rw [fresh, adds]
    constructor
    · rintro ⟨e, member, rfl⟩
      obtain rfl := List.mem_singleton.mp member
      decide
    · rintro ⟨listed, set⟩
      have pending : k = ⟨5, .read⟩ ∨ k = ⟨6, .write⟩ := by simpa using listed
      obtain rfl | rfl := pending
      · exact absurd set (by decide)
      · exact ⟨_, List.mem_singleton_self _, rfl⟩
  obtain ⟨evt', vp', done, notified⟩ := kqueue_dispatch _ _ _ _ Kqueue.scripted_set hist s run
    (fun e _ => Kqueue.scripted_fair e.pre e.label) idle mine Kqueue.sixOut _ answer exactly (by decide)
  exact ⟨hist, s, evt', vp', run, queue, done, notified⟩

end StateThreads
