import StateThreads.Event.Accounts

/-! The branch of _st_epoll_dispatch after a fork. All counts are set to zero and the pollqs
on io_q are counted again, each by a pollset_add whose result is not looked at. -/
namespace StateThreads.Epoll

variable {κ ω : Type} {K : Kernel κ ω}

/-- The entries are inside the table. This needs no answer of the kernel. -/
def Inside (s : State κ) (ps : List PollFd) : Prop :=
  0 ≤ s.data.fdDataSize ∧ ∀ pd ∈ ps, Valid pd ∧ pd.fd < s.data.fdDataSize

theorem Inside.grown {s s' : State κ} {ps : List PollFd} (inside : Inside s ps)
    (size : s.data.fdDataSize ≤ s'.data.fdDataSize) : Inside s' ps :=
  ⟨inside.1.trans size, fun pd member => ⟨(inside.2 pd member).1, lt_of_lt_of_le (inside.2 pd member).2 size⟩⟩

theorem Inside.asks {s : State κ} {ps qs : List PollFd} (same : SameAsks ps qs) (inside : Inside s ps) : Inside s qs := by
  refine ⟨inside.1, fun pd member => ?_⟩
  have asked : pd.ask ∈ ps.map PollFd.ask := (List.Perm.mem_iff same).mpr (List.mem_map_of_mem member)
  obtain ⟨p, there, equal⟩ := List.mem_map.mp asked
  obtain ⟨fd, events⟩ := Prod.mk.inj equal
  obtain ⟨⟨nonneg, some_, known⟩, below⟩ := inside.2 p there
  rw [fd] at nonneg below
  rw [events] at some_ known
  exact ⟨⟨nonneg, some_, known⟩, below⟩

theorem fdDataExpand_size {s s' : State κ} {maxfd : Int} {ok : Bool} (size : 0 ≤ s.data.fdDataSize)
    (run : fdDataExpand K s maxfd = some (s', ok)) :
    s.data.fdDataSize ≤ s'.data.fdDataSize ∧ (ok = true → maxfd < s'.data.fdDataSize) := by
  simp only [fdDataExpand, Option.bind_eq_bind, Option.bind_eq_some_iff] at run
  obtain ⟨n, grown, run⟩ := run
  obtain ⟨above, larger⟩ := doubled_spec grown size
  split at run <;> cases run
  · exact ⟨larger, fun _ => above⟩
  · exact ⟨le_refl _, by simp⟩

theorem checkLoop_size {pds : List PollFd} {s s' : State κ} {error : Option AddError} (size : 0 ≤ s.data.fdDataSize)
    (run : checkLoop K pds s = some (s', error)) : s.data.fdDataSize ≤ s'.data.fdDataSize ∧
      (error = none → ∀ pd ∈ pds, Valid pd ∧ pd.fd < s'.data.fdDataSize) := by
  induction pds generalizing s with
  | nil => cases run; exact ⟨le_refl _, by simp⟩
  | cons pd pds ih =>
    rw [checkLoop] at run
    split at run
    · cases run; exact ⟨le_refl _, by simp⟩
    · rename_i right
      have valid : Valid pd := by
        simp only [not_or, Int.not_lt, ne_eq, not_not] at right
        exact ⟨right.1, right.2.1, right.2.2⟩
      have rest : ∀ {s₁ : State κ}, s.data.fdDataSize ≤ s₁.data.fdDataSize → pd.fd < s₁.data.fdDataSize →
          checkLoop K pds s₁ = some (s', error) → s.data.fdDataSize ≤ s'.data.fdDataSize ∧
            (error = none → ∀ p ∈ pd :: pds, Valid p ∧ p.fd < s'.data.fdDataSize) := by
        intro s₁ grew below run
        obtain ⟨larger, checked⟩ := ih (size.trans grew) run
        refine ⟨grew.trans larger, fun none p member => ?_⟩
        obtain rfl | member := List.mem_cons.mp member
        · exact ⟨valid, lt_of_lt_of_le below larger⟩
        · exact checked none p member
      split at run
      · simp only [Option.bind_eq_bind, Option.bind_eq_some_iff] at run
        obtain ⟨⟨s₁, ok⟩, grown, run⟩ := run
        obtain ⟨grew, above⟩ := fdDataExpand_size size grown
        cases ok with
        | false => cases run; exact ⟨grew, by simp⟩
        | true => exact rest grew (above rfl) run
      · exact rest (le_refl _) (by omega) run

theorem pollsetAdd_size {s s' : State κ} {pds : List PollFd} {error : Option AddError} (size : 0 ≤ s.data.fdDataSize)
    (run : pollsetAdd K s pds = some (s', error)) : s.data.fdDataSize ≤ s'.data.fdDataSize ∧
      (error = none → ∀ pd ∈ pds, Valid pd ∧ pd.fd < s'.data.fdDataSize) := by
  simp only [pollsetAdd, Option.bind_eq_bind, Option.bind_eq_some_iff] at run
  obtain ⟨⟨s₁, refused⟩, checked, run⟩ := run
  obtain ⟨larger, valid⟩ := checkLoop_size size checked
  cases refused with
  | some e =>
    cases run
    exact ⟨larger, by simp⟩
  | none =>
    simp only [Option.bind_eq_some_iff] at run
    obtain ⟨⟨s₂, stop⟩, added, run⟩ := run
    obtain ⟨-, -, -, same, -⟩ := addLoop_data added
    cases stop with
    | none =>
      cases run
      rw [same]
      exact ⟨larger, valid⟩
    | some at_ =>
      cases run
      rw [(pollsetDel_data _ _).2.1, same]
      exact ⟨larger, by simp⟩

def Data.cleared (d : Data) (epfd : Int) (pid : Nat) : Data :=
  { d with
    epfd := epfd, pid := pid, evtlistCnt := 0
    fdData := fun fd => if 0 ≤ fd ∧ fd < d.fdDataSize then ⟨0, 0, 0, 0⟩ else d.fdData fd }

def refill (K : Kernel κ ω) (s : State κ) (ioq : List (List PollFd)) : Option (State κ) :=
  ioq.foldlM (fun s pds => (pollsetAdd K s pds).map Prod.fst) s

theorem refill_cons {s s' : State κ} {pds : List PollFd} {ioq : List (List PollFd)}
    (run : refill K s (pds :: ioq) = some s') :
    ∃ s₁ error, pollsetAdd K s pds = some (s₁, error) ∧ refill K s₁ ioq = some s' := by
  simp only [refill, List.foldlM_cons, Option.bind_eq_bind, Option.bind_eq_some_iff, Option.map_eq_some_iff] at run
  obtain ⟨s₁, ⟨⟨_, error⟩, added, rfl⟩, run⟩ := run
  exact ⟨_, error, added, run⟩

theorem afterFork_cases {s s' : State κ} {ioq : List (List PollFd)} {created : Bool}
    (run : afterFork K s ioq = some (s', created)) :
    (created = false ∧ s'.data = { s.data with epfd := -1 }) ∨
    (created = true ∧ ∃ epfd, refill K ⟨s.data.cleared epfd
        (K.getpid (K.epollCreate (K.close s.kern s.data.epfd) s.data.fdHint).1),
        (K.epollCreate (K.close s.kern s.data.epfd) s.data.fdHint).1⟩ ioq = some s') := by
  unfold afterFork at run
  dsimp only at run
  generalize K.epollCreate (K.close s.kern s.data.epfd) s.data.fdHint = answer at run ⊢
  obtain ⟨kern, _ | epfd⟩ := answer
  · cases run
    exact .inl ⟨rfl, rfl⟩
  · simp only [Option.bind_eq_bind, Option.bind_eq_some_iff] at run
    obtain ⟨s₁, refilled, run⟩ := run
    cases run
    exact .inr ⟨rfl, epfd, refilled⟩

theorem refill_size {s s' : State κ} {ioq : List (List PollFd)} (size : 0 ≤ s.data.fdDataSize)
    (run : refill K s ioq = some s') : s.data.fdDataSize ≤ s'.data.fdDataSize := by
  induction ioq generalizing s with
  | nil => cases run; exact le_refl _
  | cons pds ioq ih =>
    obtain ⟨s₁, error, added, run⟩ := refill_cons run
    have grew := (pollsetAdd_size size added).1
    exact grew.trans (ih (size.trans grew) run)

theorem afterFork_size {s s' : State κ} {ioq : List (List PollFd)} {created : Bool} (size : 0 ≤ s.data.fdDataSize)
    (run : afterFork K s ioq = some (s', created)) : s.data.fdDataSize ≤ s'.data.fdDataSize := by
  obtain ⟨-, same⟩ | ⟨-, epfd, refilled⟩ := afterFork_cases run
  · rw [same]
  · have grew := refill_size (s := ⟨s.data.cleared epfd _, _⟩) size refilled
    exact grew

theorem epollWait_size (K : Kernel κ ω) (s : State κ) (timeout : Int) :
    (epollWait K s timeout).1.data.fdDataSize = s.data.fdDataSize := by
  simp only [epollWait]
  rw [(marks_data _ _).2.2]

theorem wait_size {s s' : State κ} {min : Option UTime} {ioq : List (List PollFd)} {found : Bool}
    (size : 0 ≤ s.data.fdDataSize) (run : wait K s min ioq = some (s', found)) :
    s.data.fdDataSize ≤ s'.data.fdDataSize := by
  unfold wait at run
  split at run
  · simp only [Option.bind_eq_bind, Option.bind_eq_some_iff] at run
    obtain ⟨⟨s₁, created⟩, forked, run⟩ := run
    have grew := afterFork_size size forked
    cases created with
    | true =>
      have same : (epollWait K s₁ (msTimeout min)).1 = s' := congrArg Prod.fst (Option.some.inj run)
      rw [← same, epollWait_size]
      exact grew
    | false =>
      cases run
      exact grew
  · have same : (epollWait K s (msTimeout min)).1 = s' := congrArg Prod.fst (Option.some.inj run)
    rw [← same, epollWait_size]

theorem finish_size (K : Kernel κ ω) (s : State κ) : (finish K s).data.fdDataSize = s.data.fdDataSize := by
  unfold finish
  generalize s.data.evtlist = events
  induction events generalizing s with
  | nil => rfl
  | cons e events ih =>
    rw [List.foldl_cons, ih]
    obtain ⟨-, same⟩ | ⟨-, same⟩ := settle_cases (K := K) s e <;>
    · rw [same]
      rfl

/-- The entries on io_q have passed the checks of pollset_add, and the table never shrinks. -/
theorem eventSys_inside (K : Kernel κ ω) (created : κ → Int → Prop) :
    Bookkeeping (eventSys K created) (fun _ _ => True) Inside Inside where
  asks _ _ _ same kept := kept.asks same
  walkAsks _ _ _ same kept := kept.asks same
  initial evt start := by
    obtain ⟨fdlim, epfd, -, data⟩ := start
    have size : 0 ≤ fdHint fdlim := by
      unfold fdHint
      split <;> omega
    rw [Inside, data]
    exact ⟨size, by simp⟩
  added evt evt' ps pds kept run := by
    obtain ⟨larger, valid⟩ := pollsetAdd_size kept.1 run
    obtain ⟨size, old⟩ := kept.grown larger
    refine ⟨size, fun pd member => ?_⟩
    obtain there | new := List.mem_append.mp member
    · exact old pd there
    · exact valid rfl pd new
  refused evt evt' ps pds error kept run := kept.grown (pollsetAdd_size kept.1 run).1
  deleted evt ps pds kept := by
    have less := kept.grown (le_of_eq (pollsetDel_data (K := K) evt pds).2.1.symm)
    exact ⟨less.1, fun pd member => less.2 pd (List.mem_append_right _ member)⟩
  waited s now time min ioq evt' found _ kept run := by
    have later := kept.grown (wait_size kept.1 run)
    cases found <;> exact later
  visited evt pds ps kept := by
    refine ⟨kept, ?_⟩
    simp only [eventSys, visit, List.map_map]
    exact List.map_congr_left fun pd _ => look_ask evt.data pd
  withdrawn evt ps pds kept := by
    have less := kept.grown (le_of_eq (pollsetDel_data (K := K) evt pds).2.1.symm)
    exact ⟨less.1, fun pd member => less.2 pd (List.mem_append_right _ member)⟩
  stayed _ _ _ kept := kept
  finished evt ps kept := kept.grown (le_of_eq (finish_size K evt).symm)
  fdNew evt evt' ps fd error kept run := by
    simp only [eventSys, fdNew] at run
    split at run
    · simp only [Option.map_eq_some_iff] at run
      obtain ⟨⟨s₁, ok⟩, expanded, same⟩ := run
      cases same
      exact kept.grown (fdDataExpand_size kept.1 expanded).1
    · cases run; exact kept
  outside _ _ _ kept := kept

theorem checkLoop_inside {pds : List PollFd} {s : State κ} (inside : ∀ pd ∈ pds, Valid pd ∧ pd.fd < s.data.fdDataSize) :
    checkLoop K pds s = some (s, none) := by
  induction pds with
  | nil => rfl
  | cons pd pds ih =>
    obtain ⟨valid, below⟩ := inside pd (List.mem_cons_self ..)
    rw [checkLoop, if_neg, if_neg (by omega)]
    · exact ih fun p member => inside p (List.mem_cons_of_mem _ member)
    · have fd := valid.fd
      simp only [not_or, Int.not_lt, ne_eq, not_not]
      exact ⟨fd, valid.some_, valid.known⟩

theorem pollsetAdd_inside {s s' : State κ} {pds : List PollFd} {error : Option AddError}
    (inside : ∀ pd ∈ pds, Valid pd ∧ pd.fd < s.data.fdDataSize) (run : pollsetAdd K s pds = some (s', error)) :
    (error = none ∧ addLoop K pds 0 s = some (s', none)) ∨
      ∃ s₁ e i, error = some e ∧ addLoop K pds 0 s = some (s₁, some (e, i)) ∧ s' = pollsetDel K s₁ (pds.take (i + 1)) := by
  simp only [pollsetAdd, checkLoop_inside inside, Option.bind_eq_bind, Option.bind_some, Option.bind_eq_some_iff] at run
  obtain ⟨⟨s₁, stop⟩, added, run⟩ := run
  cases stop with
  | none =>
    cases run
    exact .inl ⟨rfl, added⟩
  | some at_ =>
    obtain ⟨e, i⟩ := at_
    cases run
    exact .inr ⟨s₁, e, i, rfl, added, rfl⟩

theorem pollsetAdd_counts {s s' : State κ} {pds : List PollFd} {error : Option AddError}
    (inside : ∀ pd ∈ pds, Valid pd ∧ pd.fd < s.data.fdDataSize) (run : pollsetAdd K s pds = some (s', error)) :
    s'.data.fdDataSize = s.data.fdDataSize ∧
      (error = none → ∀ fd, s'.data.fdData fd = (s.data.fdData fd).more pds fd) ∧
      (error ≠ none → pds ≠ [] ∧ ∀ fd, s'.data.fdData fd = s.data.fdData fd) := by
  obtain ⟨rfl, added⟩ | ⟨s₁, e, i, rfl, added, rfl⟩ := pollsetAdd_inside inside run
  · obtain ⟨n, ⟨-, all⟩ | ⟨e, j, never, -⟩, counts, size, -⟩ := addLoop_data added
    · rw [all] at counts
      exact ⟨size, fun _ => counts, by simp⟩
    · cases never
  · obtain ⟨n, ⟨never, -⟩ | ⟨e, j, same, rfl⟩, counts, size, -⟩ := addLoop_data added
    · cases never
    · cases same
      obtain ⟨less, size', -⟩ := pollsetDel_data (K := K) s₁ (pds.take (0 + j + 1))
      refine ⟨size'.trans size, by simp, fun _ => ⟨?_, fun fd => ?_⟩⟩
      · rintro rfl
        cases added
      · rw [less, counts, Nat.zero_add, FdData.more_less]

end StateThreads.Epoll
