import StateThreads.Contract.Polling
import StateThreads.Event.Sets
import StateThreads.Event.Slices

/-! The select and the poll event system over whole runs. -/
namespace StateThreads
open LabelledRun

variable {κ ω : Type}

def SelectCounts (kind : PollFd → Bool) (set : Select.FdSet) (cnt : Int → Int) (ps : List PollFd) : Prop :=
  ∀ fd, cnt fd = (ps.countP fun pd => pd.fd = fd && kind pd : Nat) ∧ (set fd = true ↔ 0 < cnt fd)

structure SelectSound (s : System (Select.State κ)) : Prop where
  reads : SelectCounts PollFd.reads s.evt.readSet s.evt.readCnt (polled s.vp)
  writes : SelectCounts PollFd.writes s.evt.writeSet s.evt.writeCnt (polled s.vp)
  excepts : SelectCounts PollFd.excepts s.evt.excepSet s.evt.excepCnt (polled s.vp)
  named : ∀ pd ∈ polled s.vp, pd.fd ≤ s.evt.maxfd
  low : s.evt.maxfd < Select.fdSetSize
  covered : ∀ t, (s.vp.thr t).context = .poll → (s.vp.thr t).state = .ioWait → ∀ pd ∈ (s.vp.pollq t).pds,
    pd.fd < s.evt.maxfd + 1 ∧ (pd.reads = true → s.evt.readSet pd.fd = true) ∧
      (pd.writes = true → s.evt.writeSet pd.fd = true) ∧ (pd.excepts = true → s.evt.excepSet pd.fd = true)

theorem Select.Kept.counts {kind : PollFd → Bool} {set : FdSet} {cnt : Int → Int} {ps : List PollFd}
    (kept : Kept kind set cnt ps) : SelectCounts kind set cnt ps := fun fd => ⟨kept.count fd, kept.bit fd⟩

theorem Select.Kept.held {kind : PollFd → Bool} {set : FdSet} {cnt : Int → Int} {ps : List PollFd} {pd : PollFd}
    (kept : Kept kind set cnt ps) (member : pd ∈ ps) (asks : kind pd = true) : set pd.fd = true := by
  rw [kept.bit, kept.count]
  exact Epoll.tally_pos_iff.mpr ⟨pd, member, rfl, asks⟩

theorem Inv.polled_mem {vp : Vp} {r : Option Tid} (inv : Inv vp r) {t : Tid} (polls : vp.Polls t) {pd : PollFd}
    (member : pd ∈ (vp.pollq t).pds) : pd ∈ polled vp :=
  List.mem_flatMap.mpr ⟨t, inv.ioQ_iff.mpr ⟨polls.1, (inv.linked_poll polls).1⟩, member⟩

/-- Whatever select and fcntl answer, the sets and counts are those of the entries on io_q
and select is asked for all of them. -/
theorem select_invariant (K : Select.Kernel κ ω) (hist : List (SysEvent (Select.State κ) ω))
    (s : System (Select.State κ)) (run : SysRun (Select.eventSys K) hist s) : SelectSound s := by
  obtain ⟨counted, -, bounded⟩ := (Select.eventSys_keeps K).run run fun _ _ => trivial
  have inv := run.settled.inv
  refine ⟨counted.reads.counts, counted.writes.counts, counted.excepts.counts, bounded.named, bounded.low, ?_⟩
  intro t place waits pd member
  have entry := inv.polled_mem ⟨place, waits⟩ member
  have below := bounded.named pd entry
  exact ⟨by omega, counted.reads.held entry, counted.writes.held entry, counted.excepts.held entry⟩

/-- A kernel that answers select as it was told from outside, with descriptor 7 closed. -/
def Select.scripted : Select.Kernel Select.Answer Select.Answer where
  select k _ _ _ _ _ := (k, k)
  fcntl _ fd := fd = 7
  outside _ answer := answer

def Select.started : System (Select.State Select.Answer) where
  vp := (stInit Vp.boot ⟨true, true, 0, some 0, some 1⟩).getD Vp.boot
  evt := Select.init .timeout

theorem Select.started_ok : Started (Select.eventSys Select.scripted) Select.started :=
  ⟨rfl, ⟨true, true, 0, some 0, some 1⟩, rfl, by decide⟩

/-- Thread 3 polls a closed descriptor and descriptor 5, which thread 2 polls too. select
fails with EBADF, and the largest descriptor is that of thread 2. -/
theorem select_invariant_bad_descriptor :
    ∃ hist s, SysRun (Select.eventSys Select.scripted) hist s ∧
      (s.vp.ioQ = [2] ∧ s.evt.maxfd = 6 ∧ s.evt.readCnt 5 = 1 ∧ s.evt.readSet 7 = false) ∧ SelectSound s := by
  obtain ⟨hist, s, run, seen⟩ := Run.found (M := machine (Select.eventSys Select.scripted))
    [.call (.threadCreate (some 2) false none), .call (.threadCreate (some 3) false none), .call (.usleep 9000), .resume,
      .call (.poll [⟨5, pollIn, 0⟩, ⟨6, pollOut, 0⟩] 900), .resume, .call (.poll [⟨7, pollIn, 0⟩, ⟨5, pollIn, 0⟩] 900),
      .outside (.failed .ebadf), .idle 600 0]
    Select.started_ok
    (p := fun _ s => decide (s.vp.ioQ = [2] ∧ s.evt.maxfd = 6 ∧ s.evt.readCnt 5 = 1 ∧ s.evt.readSet 7 = false))
    (by decide +kernel)
  exact ⟨hist, s, run, of_decide_eq_true seen, select_invariant Select.scripted hist s run⟩

/- The poll event system. -/

/-- The part of the array that belongs to t, behind the entries of front. -/
def Vp.slice (vp : Vp) (front : List Tid) (t : Tid) (array : List PollFd) : List PollFd :=
  (array.drop (front.map fun u => (vp.pollq u).pds.length).sum).take (vp.pollq t).pds.length

/-- What becomes of the threads on io_q when poll returns nfd and leaves the given array.
Each of them is told what is in its own part, and woken if there is something in it. -/
structure SlicesTold (vp : Vp) (nfd : Int) (array : List PollFd) (vp' : Vp) : Prop where
  copied : ∀ front t back, vp.ioQ = front ++ t :: back → vp.slice front t (polled vp) = (vp.pollq t).pds
  own : ∀ front t back, vp.ioQ = front ++ t :: back →
    (vp.slice front t array).map PollFd.ask = (vp.pollq t).pds.map PollFd.ask
  woken : ∀ front t back, vp.ioQ = front ++ t :: back →
    (t ∉ vp'.ioQ ↔ 0 < nfd ∧ ∃ pd ∈ vp.slice front t array, pd.revents ≠ 0)
  results : ∀ front t back, vp.ioQ = front ++ t :: back → t ∉ vp'.ioQ →
    vp'.pollq t = ⟨vp.slice front t array, false⟩ ∧ (vp'.thr t).state = .runnable
  stays : ∀ t ∈ vp'.ioQ, vp'.pollq t = vp.pollq t ∧ vp'.thr t = vp.thr t
  queue : vp'.ioQ.Sublist vp.ioQ
  order : vp'.runQ = vp.runQ ++ vp.ioQ.filter fun t => t ∉ vp'.ioQ

/-- The data of the poll event system and its next dispatch, at the end of a run. The
dispatch can go on once the array is allocated, as reserve says. -/
structure PollSound (K : Poll.Kernel κ ω) (s : System (Poll.State κ)) : Prop where
  count : s.evt.fdcnt = ((s.vp.ioQ.map fun t => (s.vp.pollq t).pds.length).sum : Nat)
  gathers : 0 ≤ s.evt.fdcnt ∧ (polled s.vp).length = s.evt.fdcnt ∧ (polled s.vp).length ≤ Poll.room s.evt
  dispatches : (s.vp.thr s.vp.current).context = .idle → ∀ s₁, Poll.reserve K s.evt = some s₁ →
    ∃ kern nfd revents evt vp, K.poll s₁.kern (polled s.vp) (msTimeout (minTimeout s.vp)) = (kern, nfd, revents) ∧
      dispatch (Poll.eventSys K) s.evt s.vp = some (evt, vp) ∧
      SlicesTold s.vp nfd (Poll.returned (polled s.vp) revents) vp
  asserts : ∀ front back evt found, (s.vp.ioQ.map fun t => (s.vp.pollq t).pds) = front ++ back →
    Poll.wait K s.evt (minTimeout s.vp) (front ++ back) = some (evt, found) →
    0 ≤ (walked (Poll.eventSys K) front evt).fdcnt

/-- The sum of npds over the pollqs on io_q is an int, and so is the size of the array, if a
new one has to be allocated for them. -/
structure PollFits (s : System (Poll.State κ)) : Prop where
  sum : IsInt ((s.vp.ioQ.map fun t => (s.vp.pollq t).pds.length).sum : Nat)
  grown : s.evt.pollfdsSize < ((s.vp.ioQ.map fun t => (s.vp.pollq t).pds.length).sum : Nat) →
    IsInt (((s.vp.ioQ.map fun t => (s.vp.pollq t).pds.length).sum : Nat) + 10)

section
variable {vp : Vp} {front back : List Tid} {t : Tid} (split : vp.ioQ = front ++ t :: back)
include split

theorem Vp.slice_polled : vp.slice front t (polled vp) = (vp.pollq t).pds := by
  have before : (front.map fun u => (vp.pollq u).pds.length).sum = (front.flatMap fun u => (vp.pollq u).pds).length := by
    rw [List.length_flatMap]
  rw [Vp.slice, polled, split, List.flatMap_append, List.flatMap_cons, before, List.drop_left, List.take_left]

theorem Vp.slice_asks {array : List PollFd} (same : array.map PollFd.ask = (polled vp).map PollFd.ask) :
    (vp.slice front t array).map PollFd.ask = (vp.pollq t).pds.map PollFd.ask := by
  rw [Vp.slice, List.map_take, List.map_drop, same, ← List.map_drop, ← List.map_take]
  exact congrArg _ (Vp.slice_polled split)

theorem Vp.slice_append {array junk : List PollFd} (length : array.length = (polled vp).length) :
    vp.slice front t (array ++ junk) = vp.slice front t array := by
  have room : (front.map fun u => (vp.pollq u).pds.length).sum + (vp.pollq t).pds.length ≤ array.length := by
    rw [length, polled, split, List.length_flatMap]
    simp
  rw [Vp.slice, Vp.slice, List.drop_append_of_le_length (by omega), List.take_append_of_le_length]
  rw [List.length_drop]
  omega

theorem Poll.findings_at {K : Poll.Kernel κ ω} {evt : Poll.State κ} {f : Tid → List PollFd × Bool}
    (found : vp.ioQ.map f = findings (Poll.eventSys K) (vp.ioQ.map fun u => (vp.pollq u).pds) evt) :
    f t = Poll.finding (vp.pollq t).pds (vp.slice front t (evt.pollfds.drop evt.cursor)) := by
  have before : (front.map fun u => (vp.pollq u).pds).flatten.length =
      (front.map fun u => (vp.pollq u).pds.length).sum := by
    rw [← List.flatMap_def, List.length_flatMap]
  rw [Poll.findings_slices, split, List.map_append, List.map_cons, List.map_append, List.map_cons, Poll.slices_append,
    List.zipWith_append (by rw [Poll.slices_length])] at found
  have here := (List.append_inj found (by simp [Poll.slices_length])).2
  rw [List.zipWith_cons_cons, before] at here
  exact (List.cons.inj here).1

end

theorem Poll.told {K : Poll.Kernel κ ω} {evt : Poll.State κ} {vp vp' : Vp} {f : Tid → List PollFd × Bool}
    {nfd : Int} {array junk : List PollFd} (some_ : 0 < nfd)
    (same : array.map PollFd.ask = (polled vp).map PollFd.ask) (holds : evt.pollfds.drop evt.cursor = array ++ junk)
    (found : vp.ioQ.map f = findings (Poll.eventSys K) (vp.ioQ.map fun u => (vp.pollq u).pds) evt)
    (visited : Visited vp vp.ioQ f vp') : SlicesTold vp nfd array vp' := by
  have length : array.length = (polled vp).length := by simpa using congrArg List.length same
  have here : ∀ front t back, vp.ioQ = front ++ t :: back →
      t ∈ vp.ioQ ∧ f t = Poll.finding (vp.pollq t).pds (vp.slice front t array) := by
    intro front t back split
    rw [Poll.findings_at split found, holds, Vp.slice_append split length, split]
    simp
  constructor
  · intro front t back split
    exact Vp.slice_polled split
  · intro front t back split
    exact Vp.slice_asks split same
  · intro front t back split
    obtain ⟨queued, result⟩ := here front t back split
    rw [visited.off queued, result, Poll.finding_notify]
    simp [some_]
  · intro front t back split away
    obtain ⟨queued, result⟩ := here front t back split
    have hit := (visited.off queued).mp away
    obtain ⟨record, state⟩ := visited.woken queued hit
    rw [record, state]
    rw [result] at hit ⊢
    rw [Poll.finding_result, if_pos hit]
    exact ⟨rfl, rfl⟩
  · intro t still
    obtain ⟨front, back, split⟩ := List.append_of_mem (visited.queue.subset still)
    obtain ⟨quiet, record, state⟩ := visited.left still
    obtain ⟨-, result⟩ := here front t back split
    rw [record, state]
    rw [result] at quiet ⊢
    rw [Poll.finding_result, if_neg (by simp [quiet])]
    exact ⟨rfl, rfl⟩
  · exact visited.queue
  · exact visited.order

theorem SlicesTold.none (vp : Vp) {nfd : Int} (zero : ¬ 0 < nfd) {array : List PollFd}
    (same : array.map PollFd.ask = (polled vp).map PollFd.ask) : SlicesTold vp nfd array vp where
  copied _ _ _ split := Vp.slice_polled split
  own _ _ _ split := Vp.slice_asks split same
  woken front t back split := by simp [split, zero]
  results front t back split away := by simp [split] at away
  stays _ _ := ⟨rfl, rfl⟩
  queue := List.Sublist.refl _
  order := by simp

theorem polled_length (vp : Vp) : (polled vp).length = (vp.ioQ.map fun t => (vp.pollq t).pds.length).sum := by
  rw [polled, List.length_flatMap]

section
variable {K : Poll.Kernel κ ω} {s : System (Poll.State κ)} (accounts : Poll.Accounts s.evt (polled s.vp))
include accounts

theorem PollSound.fits (sound : PollSound K s) : PollFits s := by
  have count := sound.count
  obtain ⟨-, -, room⟩ := sound.gathers
  rw [polled_length, ← count, Poll.room_iff accounts.int] at room
  constructor
  · rw [← count]
    exact accounts.int
  · rw [← count]
    exact room

theorem PollFits.count (fits : PollFits s) : s.evt.fdcnt = (polled s.vp).length :=
  accounts.count_iff.mpr (by rw [polled_length]; exact fits.sum)

theorem PollFits.room (fits : PollFits s) : (polled s.vp).length ≤ Poll.room s.evt := by
  have count := fits.count accounts
  rw [← count, Poll.room_iff accounts.int, count, polled_length]
  exact fits.grown

theorem PollFits.dispatches (fits : PollFits s) (settled : Settled s.vp)
    (idle : (s.vp.thr s.vp.current).context = .idle) {s₁ : Poll.State κ} (reserved : Poll.reserve K s.evt = some s₁) :
    ∃ kern nfd revents evt vp, K.poll s₁.kern (polled s.vp) (msTimeout (minTimeout s.vp)) = (kern, nfd, revents) ∧
      dispatch (Poll.eventSys K) s.evt s.vp = some (evt, vp) ∧
      SlicesTold s.vp nfd (Poll.returned (polled s.vp) revents) vp := by
  have count := fits.count accounts
  have room := fits.room accounts
  rw [← (Poll.reserve_room reserved).2] at room
  rw [polled_flatten] at count room
  obtain ⟨kern, nfd, revents, asked, waited⟩ := Poll.wait_spec count reserved room (minTimeout s.vp)
  rw [← polled_flatten] at asked waited
  have same := Poll.returned_asks (polled s.vp) revents
  have step : dispatch (Poll.eventSys K) s.evt s.vp = _ := congrArg (fun r => Option.bind r _) waited
  rw [Option.bind_some] at step
  by_cases some_ : 0 < nfd
  · obtain ⟨vp, f, walk, found, visited⟩ := dispatchLoop_visits (Poll.eventSys K)
      { s₁ with
        kern := kern, cursor := 0
        pollfds := Poll.returned (polled s.vp) revents ++ s₁.pollfds.drop (polled s.vp).length }
      settled.inv idle (settled.empty idle)
    simp only [some_, decide_true, if_true] at step
    rw [walk] at step
    exact ⟨kern, nfd, revents, _, vp, asked, step, Poll.told some_ same List.drop_zero found visited⟩
  · rw [decide_eq_false some_] at step
    exact ⟨kern, nfd, revents, _, s.vp, asked, step, .none s.vp some_ same⟩

theorem Poll.Accounts.asserts {front back : List (List PollFd)}
    (split : (s.vp.ioQ.map fun t => (s.vp.pollq t).pds) = front ++ back) {evt : Poll.State κ} {found : Bool}
    (waited : Poll.wait K s.evt (minTimeout s.vp) (front ++ back) = some (evt, found)) :
    0 ≤ (walked (Poll.eventSys K) front evt).fdcnt := by
  rw [polled_flatten, split] at accounts
  obtain ⟨count, s₁, reserved, fits⟩ := Poll.wait_counted accounts waited
  obtain ⟨kern, nfd, revents, -, waited'⟩ := Poll.wait_spec count reserved fits (minTimeout s.vp)
  obtain ⟨rfl, -⟩ := Prod.mk.inj (Option.some.inj (waited.symm.trans waited'))
  have start := Poll.Walking.gathered accounts count reserved kern revents (s₁.pollfds.drop (front ++ back).flatten.length)
  have done := ((Poll.eventSys_walk K).part start).count
  rw [done]
  exact Int.natCast_nonneg _

end

/-- At the end of every run, the count of the poll event system is that of the entries on
io_q, a dispatch hands all of them to poll, and every thread gets what poll reports for its
own, exactly when no int overflows. -/
theorem poll_invariant (K : Poll.Kernel κ ω) (hist : List (SysEvent (Poll.State κ) ω)) (s : System (Poll.State κ))
    (run : SysRun (Poll.eventSys K) hist s) : PollSound K s ↔ PollFits s := by
  have accounts := (Poll.eventSys_keeps K).run run fun _ _ => trivial
  constructor
  · exact PollSound.fits accounts
  · intro fits
    have count := fits.count accounts
    constructor
    · rw [count, polled_length]
    · exact ⟨by omega, count.symm, fits.room accounts⟩
    · intro idle s₁ reserved
      exact fits.dispatches accounts run.settled idle reserved
    · intro front back evt found split waited
      exact accounts.asserts split waited

def Poll.sixOut : Poll.Kernel Unit Unit where
  poll _ asked _ := ((), (asked.countP fun pd => pd.fd = 6 && pd.writes : Nat),
    asked.map fun pd => if pd.fd = 6 && pd.writes then pollOut else 0)
  malloc _ _ := ((), true)
  outside _ _ := ()

/-- Threads 2, 3 and 4 poll. The middle one is told of descriptor 6, and the last one, whose
entries come behind those of the one taken off io_q, is left waiting. -/
theorem poll_invariant_middle_slice :
    ∃ hist s, SysRun (Poll.eventSys Poll.sixOut) hist s ∧
      (s.vp.ioQ = [2, 4] ∧ s.evt.fdcnt = 3 ∧ s.vp.pollq 3 = ⟨[⟨5, pollIn, 0⟩, ⟨6, pollOut, pollOut⟩], false⟩) ∧
      PollSound Poll.sixOut s ∧ PollFits s := by
  obtain ⟨hist, s, run, seen⟩ := Run.found (M := machine (Poll.eventSys Poll.sixOut))
    [.call (.threadCreate (some 2) false none), .call (.threadCreate (some 3) false none),
      .call (.threadCreate (some 4) false none), .call (.usleep 9000), .resume,
      .call (.poll [⟨5, pollIn, 0⟩] 900), .resume, .call (.poll [⟨5, pollIn, 0⟩, ⟨6, pollOut, 0⟩] 900), .resume,
      .call (.poll [⟨6, pollIn, 0⟩, ⟨7, pollOut, 0⟩] 700), .idle 100 0]
    (show Started (Poll.eventSys Poll.sixOut) Poll.started from Poll.started_ok)
    (p := fun _ s => decide ((s.vp.ioQ = [2, 4] ∧ s.evt.fdcnt = 3 ∧
      s.vp.pollq 3 = ⟨[⟨5, pollIn, 0⟩, ⟨6, pollOut, pollOut⟩], false⟩) ∧
      (s.vp.ioQ.map fun t => (s.vp.pollq t).pds.length).sum = 3 ∧ s.evt.pollfdsSize = 64))
    (by decide +kernel)
  obtain ⟨told, sum, size⟩ := of_decide_eq_true seen
  have fits : PollFits s := ⟨by rw [sum]; decide, by rw [sum, size]; decide⟩
  exact ⟨hist, s, run, told, (poll_invariant Poll.sixOut hist s run).mpr fits, fits⟩

theorem Poll.waits {K : Poll.Kernel κ ω} {hist : List (SysEvent (Poll.State κ) ω)} {s : System (Poll.State κ)}
    (run : SysRun (Poll.eventSys K) hist s) (user : (s.vp.thr s.vp.current).context = .user)
    (quiet : (s.vp.thr s.vp.current).flags.interrupt = false) {pds : List PollFd}
    (valid : ∀ pd ∈ pds, 0 ≤ pd.fd ∧ pd.events ≠ 0) :
    ∃ hist q evt, SysRun (Poll.eventSys K) hist ⟨(s.vp.polling pds q).yielded, evt⟩ := by
  have accepted : (pds.any fun pd => decide (pd.fd < 0) || decide (pd.events = 0)) = false := by
    simp only [List.any_eq_false, Bool.or_eq_true, decide_eq_true_eq, not_or]
    intro pd member
    obtain ⟨fd, some_⟩ := valid pd member
    exact ⟨by omega, some_⟩
  obtain ⟨evt, added⟩ : ∃ evt, (Poll.eventSys K).pollsetAdd s.evt pds = some (evt, none) :=
    ⟨_, if_neg (by rw [accepted]; exact Bool.false_ne_true)⟩
  obtain ⟨q, polls, -⟩ := stPoll_run (Poll.eventSys K) run.settled.inv user quiet added utimeNoTimeout
  have fired : Event.Fired (machine (Poll.eventSys K))
      ⟨s, .call (.poll pds utimeNoTimeout), none, ⟨(s.vp.polling pds q).yielded, evt⟩⟩ :=
    ⟨by simp [machine, enabled, callable, user, added], polls⟩
  exact ⟨_, q, evt, run.next fired⟩

theorem Poll.two_threads_wait (pds : List PollFd) (valid : ∀ pd ∈ pds, 0 ≤ pd.fd ∧ pd.events ≠ 0) :
    ∃ hist s, SysRun (Poll.eventSys Poll.silent) hist s ∧ s.vp.ioQ = [1, 2] ∧ ∀ t ∈ s.vp.ioQ, (s.vp.pollq t).pds = pds := by
  obtain ⟨hist, s, run, seen⟩ := Run.found (M := machine (Poll.eventSys Poll.silent))
    [.call (.threadCreate (some 2) false none)] Poll.started_ok
    (p := fun _ s => decide (s.vp.current = 1 ∧ s.vp.ioQ = [] ∧ s.vp.runQ = [2] ∧ (s.vp.thr 1).context = .user ∧
      (s.vp.thr 1).flags.interrupt = false ∧ (s.vp.thr 2).context = .fresh ∧ (s.vp.thr 2).flags.interrupt = false))
    (by decide +kernel)
  obtain ⟨current, ioQ, runQ, user, quiet, fresh, quiet'⟩ := of_decide_eq_true seen
  obtain ⟨hist₁, q₁, evt₁, run₁⟩ := Poll.waits run (by rw [current]; exact user) (by rw [current]; exact quiet) valid
  -- thread 2 begins
  have next : nextThread (s.vp.polling pds q₁) = (2, []) := by
    rw [nextThread, show (s.vp.polling pds q₁).runQ = [2] from runQ]
  have turn : (s.vp.polling pds q₁).yielded = (s.vp.polling pds q₁).switched 2 [] := by rw [Vp.yielded, next]
  rw [turn] at run₁
  have run₂ := run₁.next (e := ⟨_, .resume, none, ⟨((s.vp.polling pds q₁).switched 2 []).setContext 2 .user, evt₁⟩⟩) ⟨by
    simp [machine, enabled, Vp.switched, Vp.polling, Vp.parked, current, fresh, Context.resumes], by
    simp [machine, step, resume, Vp.switched, Vp.polling, Vp.parked, current, fresh]⟩
  obtain ⟨hist₃, q₃, evt₃, run₃⟩ := Poll.waits run₂ (by simp [Vp.switched, Vp.setContext, Vp.setThr])
    (by simp [Vp.switched, Vp.polling, Vp.parked, Vp.setContext, Vp.setThr, current, quiet']) valid
  refine ⟨hist₃, _, run₃, ?_, ?_⟩
  · simp [Vp.yielded, Vp.switched, Vp.polling, Vp.parked, Vp.setContext, Vp.setThr, current, ioQ]
  · simp [Vp.yielded, Vp.switched, Vp.polling, Vp.parked, Vp.setContext, Vp.setThr, current, ioQ]

/-- Two threads wait on one array of 2^30 entries. The count of 2^31 entries is negative. -/
theorem poll_count_overflows :
    ∃ hist s, SysRun (Poll.eventSys Poll.silent) hist s ∧
      (s.vp.ioQ = [1, 2] ∧ ∀ t ∈ s.vp.ioQ, (s.vp.pollq t).pds = List.replicate (2 ^ 30) ⟨5, pollIn, 0⟩) ∧
      s.evt.fdcnt = -2 ^ 31 ∧ ¬ PollSound Poll.silent s := by
  obtain ⟨hist, s, run, ioQ, entries⟩ := Poll.two_threads_wait (List.replicate (2 ^ 30) ⟨5, pollIn, 0⟩) (by
    intro pd member
    obtain rfl := List.eq_of_mem_replicate member
    decide)
  have sum : (s.vp.ioQ.map fun t => (s.vp.pollq t).pds.length).sum = 2 ^ 31 := by
    have each : (s.vp.ioQ.map fun t => (s.vp.pollq t).pds.length) = s.vp.ioQ.map fun _ => 2 ^ 30 := by
      apply List.map_congr_left
      intro t member
      rw [entries t member, List.length_replicate]
    rw [each, ioQ]
    rfl
  have count := ((Poll.eventSys_keeps Poll.silent).run run fun _ _ => trivial).count
  rw [polled_length, sum] at count
  have negative : s.evt.fdcnt = -2 ^ 31 := count.trans (by decide)
  refine ⟨hist, s, run, ⟨ioQ, entries⟩, negative, fun sound => ?_⟩
  have same := sound.count
  rw [negative, sum] at same
  exact absurd same (by decide)

end StateThreads
