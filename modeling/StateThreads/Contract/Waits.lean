import StateThreads.Contract.Systems

/-! The wait that a dispatch hands to the kernel, against the earliest timer. -/
namespace StateThreads
open LabelledRun

variable {σ ω κ β : Type}

/- Kernels that also write down each wait they are handed. -/

def Poll.Kernel.timed (K : Poll.Kernel κ ω) : Poll.Kernel (κ × List Int) ω where
  poll k pds timeout := (((K.poll k.1 pds timeout).1, k.2 ++ [timeout]), (K.poll k.1 pds timeout).2)
  malloc k n := (((K.malloc k.1 n).1, k.2), (K.malloc k.1 n).2)
  outside k w := (K.outside k.1 w, k.2)

def Poll.State.timed (s : Poll.State κ) : Poll.State (κ × List Int) :=
  ⟨s.pollfds, s.pollfdsSize, s.fdcnt, s.cursor, (s.kern, [])⟩

def Select.Kernel.timed (K : Select.Kernel κ ω) : Select.Kernel (κ × List (Option (Int × Int))) ω where
  select k n r w e tv := (((K.select k.1 n r w e tv).1, k.2 ++ [tv]), (K.select k.1 n r w e tv).2)
  fcntl k fd := K.fcntl k.1 fd
  outside k w := (K.outside k.1 w, k.2)

def Select.State.timed (s : Select.State κ) : Select.State (κ × List (Option (Int × Int))) :=
  ⟨s.readSet, s.writeSet, s.excepSet, s.readCnt, s.writeCnt, s.excepCnt, s.maxfd, s.walk, (s.kern, [])⟩

def Epoll.Kernel.timed (K : Epoll.Kernel κ ω) : Epoll.Kernel (κ × List Int) ω where
  epollCtl k epfd op fd events := (((K.epollCtl k.1 epfd op fd events).1, k.2), (K.epollCtl k.1 epfd op fd events).2)
  epollWait k epfd n timeout := (((K.epollWait k.1 epfd n timeout).1, k.2 ++ [timeout]), (K.epollWait k.1 epfd n timeout).2)
  epollCreate k n := (((K.epollCreate k.1 n).1, k.2), (K.epollCreate k.1 n).2)
  close k fd := (K.close k.1 fd, k.2)
  realloc k n := (((K.realloc k.1 n).1, k.2), (K.realloc k.1 n).2)
  getpid k := K.getpid k.1
  outside k w := (K.outside k.1 w, k.2)

def Epoll.State.timed (s : Epoll.State κ) : Epoll.State (κ × List Int) := ⟨s.data, (s.kern, [])⟩

def Vp.FirstDue (vp : Vp) (d : UTime) : Prop :=
  (∃ t, vp.sleepQ.onSleepq t = true ∧ vp.sleepQ.due t = d) ∧ ∀ t, vp.sleepQ.onSleepq t = true → d ≤ vp.sleepQ.due t

def Vp.remaining (vp : Vp) (d : UTime) : Nat := d.val - vp.lastClock.val

/-- A wait in milliseconds that ends, and no later than limit microseconds from now. A
negative one would not end. -/
def MsInTime (ms : Int) (limit : Nat) : Prop := 0 ≤ ms ∧ ms * 1000 ≤ limit

def TvInTime (tv : Option (Int × Int)) (limit : Nat) : Prop :=
  ∃ sec usec, tv = some (sec, usec) ∧ 0 ≤ sec ∧ 0 ≤ usec ∧ sec * 1000000 + usec ≤ limit

/- The narrowing to int. -/

theorem cInt_eq (n : Nat) : cInt n =
    if n % 2 ^ 32 < 2 ^ 31 then ((n % 2 ^ 32 : Nat) : Int) else ((n % 2 ^ 32 : Nat) : Int) - 2 ^ 32 := by
  unfold cInt
  rw [BitVec.toInt_eq_toNat_cond, BitVec.toNat_ofNat]
  split <;> rename_i h
  · rw [if_pos (by omega)]
  · rw [if_neg (by omega)]
    rfl

theorem cInt_nonneg (n : Nat) : 0 ≤ cInt n ↔ n % 2 ^ 32 < 2 ^ 31 := by
  rw [cInt_eq]
  split <;> omega

theorem cInt_le {n : Nat} (low : n % 2 ^ 32 < 2 ^ 31) : cInt n ≤ n := by
  rw [cInt_eq, if_pos low]
  omega

theorem msInTime_iff (r : Nat) : MsInTime (cInt (r / 1000)) r ↔ r / 1000 % 2 ^ 32 < 2 ^ 31 := by
  constructor
  · rintro ⟨positive, -⟩
    exact (cInt_nonneg _).mp positive
  · intro low
    refine ⟨(cInt_nonneg _).mpr low, ?_⟩
    have narrowed := cInt_le low
    omega

theorem tvInTime_iff (r : Nat) :
    TvInTime (some (cInt (r / 1000000), cInt (r % 1000000))) r ↔ r / 1000000 % 2 ^ 32 < 2 ^ 31 := by
  have usec : cInt (r % 1000000) = (r % 1000000 : Nat) := by
    rw [cInt_eq, if_pos (by omega)]
    omega
  constructor
  · rintro ⟨sec, usec, same, positive, -⟩
    obtain ⟨rfl, -⟩ := Prod.mk.inj (Option.some.inj same)
    exact (cInt_nonneg _).mp positive
  · intro low
    refine ⟨_, _, rfl, (cInt_nonneg _).mpr low, by omega, ?_⟩
    have narrowed := cInt_le low
    omega

theorem Inv.firstDue {vp : Vp} {r : Option Tid} (inv : Inv vp r) {t : Tid} (top : vp.sleepQ.link .root = some t) :
    vp.FirstDue (vp.sleepQ.due t) :=
  ⟨⟨t, inv.heap.root top, rfl⟩, fun _ on => inv.heap.least top on⟩

theorem Vp.FirstDue.unique {vp : Vp} {d d' : UTime} (first : vp.FirstDue d) (first' : vp.FirstDue d') : d = d' := by
  obtain ⟨⟨t, on, rfl⟩, least⟩ := first
  obtain ⟨⟨t', on', rfl⟩, least'⟩ := first'
  exact le_antisymm (least t' on') (least' t on)

theorem Inv.minTimeout {vp : Vp} {r : Option Tid} (inv : Inv vp r) {d : UTime} (first : vp.FirstDue d) :
    ∃ left, minTimeout vp = some left ∧ left.val = vp.remaining d := by
  cases top : vp.sleepQ.link .root with
  | none =>
    obtain ⟨⟨t, on, -⟩, -⟩ := first
    rw [inv.heap.rootless top t] at on
    cases on
  | some root =>
    have same := (inv.firstDue top).unique first
    unfold StateThreads.minTimeout Vp.remaining
    rw [top, Option.map_some, same]
    by_cases passed : d ≤ vp.lastClock
    · refine ⟨0, by rw [if_pos passed], ?_⟩
      have : d.val ≤ vp.lastClock.val := passed
      simp
      omega
    · refine ⟨d - vp.lastClock, by rw [if_neg passed], ?_⟩
      exact Fin.sub_val_of_le (le_of_lt (not_le.mp passed))

/- What a dispatch hands to the kernel. -/

structure Untouched (E : EventSys σ ω) (part : σ → β) : Prop where
  visit : ∀ s pds, part (E.visit s pds).1 = part s
  withdraw : ∀ s pds, part (E.withdraw s pds) = part s
  stay : ∀ s pds, part (E.stay s pds) = part s
  finish : ∀ s, part (E.finish s) = part s

variable {E : EventSys σ ω} {part : σ → β}

theorem Untouched.loop (kept : Untouched E part) {q : List Tid} {evt evt' : σ} {vp vp' : Vp}
    (run : dispatchLoop E q evt vp = some (evt', vp')) : part evt' = part evt := by
  induction q generalizing evt vp with
  | nil =>
    obtain ⟨rfl, -⟩ := Prod.mk.inj (Option.some.inj run)
    rfl
  | cons t q ih =>
    unfold dispatchLoop at run
    dsimp only at run
    split at run
    · simp only [Option.bind_eq_bind, Option.bind_eq_some_iff] at run
      obtain ⟨vp₁, -, vp₂, -, vp₃, -, rest⟩ := run
      rw [ih rest, kept.withdraw, kept.visit]
    · rw [ih run, kept.stay, kept.visit]

theorem Untouched.dispatch (kept : Untouched E part) {evt evt' : σ} {vp vp' : Vp}
    (run : dispatch E evt vp = some (evt', vp')) :
    ∃ evt₁ found, E.wait evt (minTimeout vp) (vp.ioQ.map fun t => (vp.pollq t).pds) = some (evt₁, found) ∧
      part evt' = part evt₁ := by
  simp only [StateThreads.dispatch, Option.bind_eq_bind, Option.bind_eq_some_iff] at run
  obtain ⟨⟨evt₁, found⟩, waited, run⟩ := run
  refine ⟨evt₁, found, waited, ?_⟩
  cases found with
  | false =>
    obtain ⟨rfl, -⟩ := Prod.mk.inj (Option.some.inj run)
    rfl
  | true =>
    simp only [if_true, Option.bind_eq_some_iff] at run
    obtain ⟨⟨evt₂, vp₁⟩, walked, run⟩ := run
    obtain ⟨rfl, -⟩ := Prod.mk.inj (Option.some.inj run)
    rw [kept.finish, kept.loop walked]

theorem Poll.wait_timed {K : Poll.Kernel κ ω} {s s' : Poll.State (κ × List Int)} {min : Option UTime}
    {ioq : List (List PollFd)} {found : Bool} (run : Poll.wait K.timed s min ioq = some (s', found)) :
    s'.kern.2 = s.kern.2 ++ [msTimeout min] := by
  by_cases negative : s.fdcnt < 0
  · simp [Poll.wait, negative] at run
  simp only [Poll.wait, negative, if_false, Option.bind_eq_bind, Option.bind_eq_some_iff] at run
  obtain ⟨s₁, room, run⟩ := run
  have same : s₁.kern.2 = s.kern.2 := by
    unfold Poll.reserve at room
    split at room
    · dsimp only at room
      split at room
      · cases room
        rfl
      · cases room
    · cases room
      rfl
  split at run
  · cases run
  · cases run
    rw [← same]
    rfl

theorem Select.wait_timed {K : Select.Kernel κ ω} (s : Select.State (κ × List (Option (Int × Int)))) (min : Option UTime) :
    (Select.wait K.timed s min).1.kern.2 = s.kern.2 ++ [Select.timeval min] := by
  unfold Select.wait
  dsimp only
  split <;> rfl

/- The calls of epoll that do not wait. -/

section
variable {K : Epoll.Kernel κ ω}

theorem Epoll.delOne_timed (s : Epoll.State (κ × List Int)) (pd : PollFd) :
    (Epoll.delOne K.timed s pd).kern.2 = s.kern.2 := by
  unfold Epoll.delOne
  dsimp only
  split
  · split <;> split <;> rfl
  · rfl

theorem Epoll.pollsetDel_timed (s : Epoll.State (κ × List Int)) (pds : List PollFd) :
    (Epoll.pollsetDel K.timed s pds).kern.2 = s.kern.2 := by
  unfold Epoll.pollsetDel
  induction pds generalizing s with
  | nil => rfl
  | cons pd pds ih => rw [List.foldl_cons, ih, Epoll.delOne_timed]

theorem Epoll.settle_timed (s : Epoll.State (κ × List Int)) (e : Int × BitVec 32) :
    (Epoll.settle K.timed s e).kern.2 = s.kern.2 := by
  unfold Epoll.settle
  dsimp only
  split <;> split <;> rfl

theorem Epoll.finish_timed (s : Epoll.State (κ × List Int)) : (Epoll.finish K.timed s).kern.2 = s.kern.2 := by
  unfold Epoll.finish
  generalize s.data.evtlist = events
  induction events generalizing s with
  | nil => rfl
  | cons e events ih => rw [List.foldl_cons, ih, Epoll.settle_timed]

theorem Epoll.fdDataExpand_timed {s s' : Epoll.State (κ × List Int)} {maxfd : Int} {ok : Bool}
    (run : Epoll.fdDataExpand K.timed s maxfd = some (s', ok)) : s'.kern.2 = s.kern.2 := by
  simp only [Epoll.fdDataExpand, Option.bind_eq_bind, Option.bind_eq_some_iff] at run
  obtain ⟨n, -, run⟩ := run
  split at run <;> cases run <;> rfl

theorem Epoll.evtlistExpand_timed {s s' : Epoll.State (κ × List Int)}
    (run : Epoll.evtlistExpand K.timed s = some s') : s'.kern.2 = s.kern.2 := by
  simp only [Epoll.evtlistExpand, Option.bind_eq_bind, Option.bind_eq_some_iff] at run
  obtain ⟨n, -, run⟩ := run
  split at run <;> cases run <;> rfl

theorem Epoll.checkLoop_timed {pds : List PollFd} {s s' : Epoll.State (κ × List Int)} {err : Option AddError}
    (run : Epoll.checkLoop K.timed pds s = some (s', err)) : s'.kern.2 = s.kern.2 := by
  induction pds generalizing s with
  | nil =>
    cases run
    rfl
  | cons pd pds ih =>
    unfold Epoll.checkLoop at run
    split at run
    · cases run
      rfl
    · split at run
      · simp only [Option.bind_eq_bind, Option.bind_eq_some_iff] at run
        obtain ⟨⟨s₁, ok⟩, grown, run⟩ := run
        have same := Epoll.fdDataExpand_timed grown
        split at run
        · exact (ih run).trans same
        · cases run
          exact same
      · exact ih run

theorem Epoll.addOne_timed {pd : PollFd} {s s' : Epoll.State (κ × List Int)} {err : Option AddError}
    (run : Epoll.addOne K.timed s pd = some (s', err)) : s'.kern.2 = s.kern.2 := by
  unfold Epoll.addOne at run
  dsimp only at run
  split at run
  · generalize (if (s.data.fdData pd.fd).events ≠ 0 then Epoll.CtlOp.mod else .add) = op at run
    split at run
    · cases run
      rfl
    · split at run
      · split at run
        · obtain ⟨s₁, grown, same⟩ := Option.map_eq_some_iff.mp run
          cases same
          exact (Epoll.evtlistExpand_timed grown).trans rfl
        · cases run
          rfl
      · cases run
        rfl
  · cases run
    rfl

theorem Epoll.addLoop_timed {pds : List PollFd} {i : Nat} {s s' : Epoll.State (κ × List Int)}
    {stop : Option (AddError × Nat)} (run : Epoll.addLoop K.timed pds i s = some (s', stop)) :
    s'.kern.2 = s.kern.2 := by
  induction pds generalizing i s with
  | nil =>
    cases run
    rfl
  | cons pd pds ih =>
    simp only [Epoll.addLoop, Option.bind_eq_bind, Option.bind_eq_some_iff] at run
    obtain ⟨⟨s₁, err⟩, added, run⟩ := run
    have same := Epoll.addOne_timed added
    cases err with
    | some error =>
      cases run
      exact same
    | none => exact (ih run).trans same

theorem Epoll.pollsetAdd_timed {pds : List PollFd} {s s' : Epoll.State (κ × List Int)} {err : Option AddError}
    (run : Epoll.pollsetAdd K.timed s pds = some (s', err)) : s'.kern.2 = s.kern.2 := by
  simp only [Epoll.pollsetAdd, Option.bind_eq_bind, Option.bind_eq_some_iff] at run
  obtain ⟨⟨s₁, failed⟩, checked, run⟩ := run
  have same := Epoll.checkLoop_timed checked
  cases failed with
  | some error =>
    cases run
    exact same
  | none =>
    simp only [Option.bind_eq_some_iff] at run
    obtain ⟨⟨s₂, stop⟩, added, run⟩ := run
    have same := (Epoll.addLoop_timed added).trans same
    cases stop with
    | none =>
      cases run
      exact same
    | some stop =>
      cases run
      exact (Epoll.pollsetDel_timed _ _).trans same

theorem Epoll.afterFork_timed {s s' : Epoll.State (κ × List Int)} {ioq : List (List PollFd)} {created : Bool}
    (run : Epoll.afterFork K.timed s ioq = some (s', created)) : s'.kern.2 = s.kern.2 ∧
      (created = false → ((K.timed.epollCreate (K.timed.close s.kern s.data.epfd)) s.data.fdHint).2 = none) := by
  unfold Epoll.afterFork at run
  dsimp only at run
  split at run
  · rename_i kern failed
    cases run
    have same := congrArg (fun r => r.1.2) failed
    exact ⟨same.symm, fun _ => by rw [failed]⟩
  · rename_i kern epfd made
    have same := congrArg (fun r => r.1.2) made
    simp only [Option.bind_eq_bind, Option.bind_eq_some_iff] at run
    obtain ⟨s₁, all, run⟩ := run
    cases run
    refine ⟨?_, fun h => by cases h⟩
    have loop : ∀ (ioq : List (List PollFd)) (s s' : Epoll.State (κ × List Int)),
        ioq.foldlM (fun s pds => (Epoll.pollsetAdd K.timed s pds).map Prod.fst) s = some s' → s'.kern.2 = s.kern.2 := by
      intro ioq
      induction ioq with
      | nil =>
        intro s s' done
        cases done
        rfl
      | cons pds ioq ih =>
        intro s s' done
        rw [List.foldlM_cons] at done
        simp only [Option.bind_eq_bind, Option.bind_eq_some_iff, Option.map_eq_some_iff] at done
        obtain ⟨s₁, ⟨⟨s₂, err⟩, added, rfl⟩, rest⟩ := done
        exact (ih _ _ rest).trans (Epoll.pollsetAdd_timed added)
    exact (loop _ _ _ all).trans same.symm

/-- One wait is handed to epoll_wait, or none when the set could not be created again
after a fork. -/
theorem Epoll.wait_timed {s s' : Epoll.State (κ × List Int)} {min : Option UTime} {ioq : List (List PollFd)} {found : Bool}
    (run : Epoll.wait K.timed s min ioq = some (s', found)) :
    s'.kern.2 = s.kern.2 ++ [msTimeout min] ∨
      s'.kern.2 = s.kern.2 ∧ s.data.pid ≠ K.getpid s.kern.1 ∧
        (K.epollCreate (K.close s.kern.1 s.data.epfd) s.data.fdHint).2 = none := by
  unfold Epoll.wait at run
  split at run
  · rename_i forked
    simp only [Option.bind_eq_bind, Option.bind_eq_some_iff] at run
    obtain ⟨⟨s₁, created⟩, again, run⟩ := run
    obtain ⟨same, failed⟩ := Epoll.afterFork_timed again
    cases created with
    | true =>
      left
      cases run
      show s₁.kern.2 ++ [msTimeout min] = _
      rw [same]
    | false =>
      cases run
      exact .inr ⟨same, forked, failed rfl⟩
  · cases run
    exact .inl rfl

end

theorem Poll.untouched (K : Poll.Kernel κ ω) : Untouched (Poll.eventSys K.timed) fun s => s.kern.2 where
  visit _ _ := rfl
  withdraw _ _ := rfl
  stay _ _ := rfl
  finish _ := rfl

theorem Select.delOne_kern (s : Select.State κ) (pds : List PollFd) : (pds.foldl Select.delOne s).kern = s.kern := by
  induction pds generalizing s with
  | nil => rfl
  | cons pd pds ih => rw [List.foldl_cons, ih]; rfl

theorem Select.untouched (K : Select.Kernel κ ω) : Untouched (Select.eventSys K.timed) fun s => s.kern.2 where
  visit _ _ := rfl
  withdraw s pds := congrArg Prod.snd (Select.delOne_kern s pds)
  stay s pds := by
    show (Select.stay s pds).kern.2 = _
    unfold Select.stay
    split <;> rfl
  finish _ := rfl

theorem Epoll.untouched (K : Epoll.Kernel κ ω) (created : κ × List Int → Int → Prop) :
    Untouched (Epoll.eventSys K.timed created) fun s => s.kern.2 where
  visit _ _ := rfl
  withdraw := Epoll.pollsetDel_timed
  stay _ _ := rfl
  finish := Epoll.finish_timed

/-- The dispatch of each event system hands one wait to the kernel, epoll none when its set
cannot be created again after a fork. The wait ends by the earliest timer exactly when the
remaining time, in the unit of the wait and cut to 32 bits, is not negative as an int. -/
theorem dispatch_wait_iff {κ₁ κ₂ ω₁ ω₂ : Type} (P : Poll.Kernel κ₁ ω₁) (S : Select.Kernel κ₂ ω₂) (K : Epoll.Kernel κ ω)
    (created : κ → Int → Prop) (d : UTime) :
    (∀ hist s, SysRun (Poll.eventSys P) hist s → s.vp.FirstDue d → ∀ evt vp,
      dispatch (Poll.eventSys P.timed) s.evt.timed s.vp = some (evt, vp) → ∃ ms, evt.kern.2 = [ms] ∧
        (MsInTime ms (s.vp.remaining d) ↔ s.vp.remaining d / 1000 % 2 ^ 32 < 2 ^ 31)) ∧
    (∀ hist s, SysRun (Select.eventSys S) hist s → s.vp.FirstDue d → ∀ evt vp,
      dispatch (Select.eventSys S.timed) s.evt.timed s.vp = some (evt, vp) → ∃ tv, evt.kern.2 = [tv] ∧
        (TvInTime tv (s.vp.remaining d) ↔ s.vp.remaining d / 1000000 % 2 ^ 32 < 2 ^ 31)) ∧
    (∀ hist s, SysRun (Epoll.eventSys K created) hist s → s.vp.FirstDue d → ∀ evt vp,
      dispatch (Epoll.eventSys K.timed fun k => created k.1) s.evt.timed s.vp = some (evt, vp) →
        (∃ ms, evt.kern.2 = [ms] ∧
          (MsInTime ms (s.vp.remaining d) ↔ s.vp.remaining d / 1000 % 2 ^ 32 < 2 ^ 31)) ∨
        evt.kern.2 = [] ∧ s.evt.data.pid ≠ K.getpid s.evt.kern ∧
          (K.epollCreate (K.close s.evt.kern s.evt.data.epfd) s.evt.data.fdHint).2 = none) := by
  refine ⟨fun hist s run first evt vp dispatched => ?_, fun hist s run first evt vp dispatched => ?_,
    fun hist s run first evt vp dispatched => ?_⟩
  · obtain ⟨left, min, same⟩ := run.settled.inv.minTimeout first
    obtain ⟨evt₁, found, waited, handed⟩ := (Poll.untouched P).dispatch dispatched
    refine ⟨msTimeout (some left), ?_, same ▸ msInTime_iff left.val⟩
    rw [handed, Poll.wait_timed waited, min]
    rfl
  · obtain ⟨left, min, same⟩ := run.settled.inv.minTimeout first
    obtain ⟨evt₁, found, waited, handed⟩ := (Select.untouched S).dispatch dispatched
    refine ⟨Select.timeval (some left), ?_, same ▸ tvInTime_iff left.val⟩
    have asked : evt₁ = (Select.wait S.timed s.evt.timed (minTimeout s.vp)).1 :=
      (congrArg Prod.fst (Option.some.inj waited)).symm
    rw [handed, asked, Select.wait_timed, min]
    rfl
  · obtain ⟨left, min, same⟩ := run.settled.inv.minTimeout first
    obtain ⟨evt₁, found, waited, handed⟩ := (Epoll.untouched K _).dispatch dispatched
    obtain one | ⟨none, forked, failed⟩ := Epoll.wait_timed waited
    · refine .inl ⟨msTimeout (some left), ?_, same ▸ msInTime_iff left.val⟩
      rw [handed, one, min]
      rfl
    · exact .inr ⟨handed.trans none, forked, failed⟩

/-- A thread sleeps for half a second, and poll is told to wait for 500 milliseconds. -/
theorem dispatch_wait_iff_half_second :
    ∃ hist s evt vp, SysRun (Poll.eventSys Poll.silent) hist s ∧
      dispatch (Poll.eventSys Poll.silent.timed) s.evt.timed s.vp = some (evt, vp) ∧ evt.kern.2 = [500] ∧
      (MsInTime 500 500000 ↔ 500000 / 1000 % 2 ^ 32 < 2 ^ 31) := by
  obtain ⟨hist, s, run, seen⟩ := Run.found (M := machine (Poll.eventSys Poll.silent)) [.call (.usleep 500000)]
    Poll.started_ok
    (p := fun _ s => decide (s.vp.sleepQ.link .root = some 1 ∧ s.vp.remaining (s.vp.sleepQ.due 1) = 500000) &&
      (dispatch (Poll.eventSys Poll.silent.timed) s.evt.timed s.vp).any fun r => r.1.kern.2 = [500])
    (by decide +kernel)
  obtain ⟨timer, handed⟩ := Bool.and_eq_true_iff.mp seen
  obtain ⟨top, left⟩ := of_decide_eq_true timer
  obtain ⟨⟨evt, vp⟩, dispatched, waits⟩ := (Option.any_eq_true _ _).mp handed
  have waits : evt.kern.2 = [500] := of_decide_eq_true waits
  obtain ⟨ms, one, exact_⟩ := (dispatch_wait_iff Poll.silent Select.scripted Epoll.scripted Epoll.startsEmpty
    (s.vp.sleepQ.due 1)).1 hist s run ((SysRun.settled run).inv.firstDue top) evt vp dispatched
  rw [waits] at one
  obtain rfl : 500 = ms := by simpa using one
  rw [left] at exact_
  exact ⟨hist, s, evt, vp, run, dispatched, waits, exact_⟩

/-- A thread sleeps for 2^31 milliseconds. The number is negative as an int, which tells
poll to wait for ever. -/
theorem dispatch_wait_for_ever :
    ¬ ∀ hist s, SysRun (Poll.eventSys Poll.silent) hist s → ∀ d, s.vp.FirstDue d → ∀ evt vp,
      dispatch (Poll.eventSys Poll.silent.timed) s.evt.timed s.vp = some (evt, vp) →
        ∀ ms ∈ evt.kern.2, MsInTime ms (s.vp.remaining d) := by
  intro inTime
  obtain ⟨hist, s, run, seen⟩ := Run.found (M := machine (Poll.eventSys Poll.silent))
    [.call (.usleep (2 ^ 31 * 1000))] Poll.started_ok
    (p := fun _ s => decide (s.vp.sleepQ.link .root = some 1) &&
      (dispatch (Poll.eventSys Poll.silent.timed) s.evt.timed s.vp).any fun r => r.1.kern.2 = [-2147483648])
    (by decide +kernel)
  obtain ⟨timer, handed⟩ := Bool.and_eq_true_iff.mp seen
  obtain ⟨⟨evt, vp⟩, dispatched, waits⟩ := (Option.any_eq_true _ _).mp handed
  have waits : evt.kern.2 = [-2147483648] := of_decide_eq_true waits
  have ended := inTime hist s run _ ((SysRun.settled run).inv.firstDue (of_decide_eq_true timer)) evt vp dispatched _
    (by rw [waits]; exact List.mem_singleton_self _)
  exact absurd ended.1 (by decide)

end StateThreads
