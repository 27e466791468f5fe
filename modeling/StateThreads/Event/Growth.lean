import StateThreads.Event.Fork
import StateThreads.Event.Shadow

/-! The table fd_data of the epoll event system: its growth, and the accesses that are made
to it without a check. -/
namespace StateThreads.Epoll

variable {κ ω : Type} {K : Kernel κ ω}

/- The loop that doubles the size. -/

def topSize (size : Int) : Int := size * 2 ^ (30 - size.toNat.log2)

theorem double_pow (n : Int) (k : Nat) : 2 * n * 2 ^ k = n * 2 ^ (k + 1) := by
  rw [Int.pow_succ, Int.mul_comm (2 ^ k) 2, ← Int.mul_assoc, Int.mul_comm n 2]

theorem topSize_large {n : Int} (large : 2 ^ 30 ≤ n) (int : n < 2 ^ 31) : topSize n = n := by
  have log : n.toNat.log2 = 30 := by
    rw [Nat.log2_eq_iff (by omega)]
    omega
  simp [topSize, log]

theorem topSize_double {n : Int} (pos : 0 < n) (small : n < 2 ^ 30) : topSize (2 * n) = topSize n := by
  have below : n.toNat.log2 < 30 := (Nat.log2_lt (by omega)).mpr (by omega)
  have log : (2 * n).toNat.log2 = n.toNat.log2 + 1 := by
    rw [show (2 * n).toNat = 2 * n.toNat by omega]
    exact Nat.log2_two_mul (by omega)
  have exponent : 30 - n.toNat.log2 = (30 - (n.toNat.log2 + 1)) + 1 := by omega
  rw [topSize, topSize, log, exponent]
  exact double_pow n _

theorem le_topSize {n : Int} (pos : 0 < n) : n ≤ topSize n := by
  have factor : (1 : Int) ≤ 2 ^ (30 - n.toNat.log2) := Int.pow_pos (by omega)
  calc n = n * 1 := (Int.mul_one n).symm
    _ ≤ topSize n := Int.mul_le_mul_of_nonneg_left factor (by omega)

theorem doubled_iff {bound : Int} {fuel : Nat} {n : Int} (pos : 0 < n) (int : n < 2 ^ 31)
    (enough : 2 ^ 31 ≤ n * 2 ^ fuel) : (∃ m, doubled bound fuel n = some m) ↔ bound < topSize n := by
  induction fuel generalizing n with
  | zero => omega
  | succ fuel ih =>
    rw [doubled]
    split
    · have := le_topSize pos
      simp only [Option.some.injEq, exists_eq', true_iff]
      omega
    · split
      · rename_i large
        rw [topSize_large large int]
        simp only [reduceCtorEq, exists_false, false_iff]
        assumption
      · rename_i small
        rw [ih (by omega) (by omega), topSize_double pos (by omega)]
        rw [double_pow]
        exact enough

theorem doubled_int {bound : Int} {fuel : Nat} {n m : Int} (run : doubled bound fuel n = some m) (int : n < 2 ^ 31) :
    m < 2 ^ 31 ∧ ∃ k, m = n * 2 ^ k := by
  induction fuel generalizing n with
  | zero => cases run
  | succ fuel ih =>
    unfold doubled at run
    split at run
    · cases run
      exact ⟨int, 0, by simp⟩
    · split at run
      · cases run
      · obtain ⟨small, k, power⟩ := ih run (by omega)
        refine ⟨small, k + 1, ?_⟩
        rw [power, double_pow]

/- The accesses. Each is an index with the size of the table at that time. -/

def Data.Has (d : Data) (fd : Int) : Prop := 0 ≤ fd ∧ fd < d.fdDataSize

def Data.reaches (d : Data) (fds : List Int) : List (Int × Int) := fds.map fun fd => (fd, d.fdDataSize)

/-- Behind its checks pollset_add, and the pollset_del that unrolls it, index the table
with the descriptors of pds. -/
def addReaches (K : Kernel κ ω) (s : State κ) (pds : List PollFd) : List (Int × Int) :=
  match checkLoop K pds s with
  | some (s₁, none) => s₁.data.reaches (pds.map PollFd.fd)
  | _ => []

def refillReaches (K : Kernel κ ω) : List (List PollFd) → State κ → List (Int × Int)
  | [], _ => []
  | pds :: ioq, s =>
    addReaches K s pds ++ match pollsetAdd K s pds with
      | some (s, _) => refillReaches K ioq s
      | none => []

def forkReaches (K : Kernel κ ω) (s : State κ) (ioq : List (List PollFd)) : List (Int × Int) :=
  match K.epollCreate (K.close s.kern s.data.epfd) s.data.fdHint with
  | (_, none) => []
  | (kern, some epfd) => refillReaches K ioq ⟨s.data.cleared epfd (K.getpid kern), kern⟩

def markReaches (K : Kernel κ ω) (s : State κ) (timeout : Int) : List (Int × Int) :=
  s.data.reaches ((K.epollWait s.kern s.data.epfd s.data.evtlistSize timeout).2.map Prod.fst)

def waitReaches (K : Kernel κ ω) (s : State κ) (min : Option UTime) (ioq : List (List PollFd)) : List (Int × Int) :=
  if s.data.pid ≠ K.getpid s.kern then
    match afterFork K s ioq with
    | some (s₁, true) => forkReaches K s ioq ++ markReaches K s₁ (msTimeout min)
    | _ => []
  else markReaches K s (msTimeout min)

/-- The data with a record of the descriptors that pollset_add or fd_new accepted, and of
the accesses to the table. -/
structure Watched (κ : Type) where
  state : State κ
  accepted : List Int
  reached : List (Int × Int)

def Watched.pollsetDel (K : Kernel κ ω) (w : Watched κ) (pds : List PollFd) : Watched κ :=
  { w with
    state := Epoll.pollsetDel K w.state pds
    reached := w.state.data.reaches (pds.map PollFd.fd) ++ w.reached }

def watchedSys (K : Kernel κ ω) (created : κ → Int → Prop) : EventSys (Watched κ) ω where
  initial w := (eventSys K created).initial w.state ∧ w.accepted = [] ∧ w.reached = []
  pollsetAdd w pds := (pollsetAdd K w.state pds).map fun r =>
    (⟨r.1, if r.2 = none then pds.map PollFd.fd ++ w.accepted else w.accepted, addReaches K w.state pds ++ w.reached⟩, r.2)
  pollsetDel := Watched.pollsetDel K
  wait w min ioq := (wait K w.state min ioq).map fun r =>
    ({ w with state := r.1, reached := waitReaches K w.state min ioq ++ w.reached }, r.2)
  visit w pds :=
    let r := visit w.state pds
    ({ w with state := r.1, reached := w.state.data.reaches (pds.map PollFd.fd) ++ w.reached }, r.2)
  withdraw := Watched.pollsetDel K
  stay w _ := w
  finish w :=
    { w with
      state := finish K w.state
      reached := w.state.data.reaches (w.state.data.evtlist.map Prod.fst) ++ w.reached }
  fdNew w osfd := (fdNew K w.state osfd).map fun r =>
    ({ w with state := r.1, accepted := if r.2 = none ∧ 0 ≤ osfd then osfd :: w.accepted else w.accepted }, r.2)
  outside w change := { w with state := ⟨w.state.data, K.outside w.state.kern change⟩ }

theorem watched_shadows (K : Kernel κ ω) (created : κ → Int → Prop) :
    Shadows (watchedSys K created) (eventSys K created) Watched.state where
  initial evt start := ⟨⟨evt, [], []⟩, ⟨start, rfl, rfl⟩, rfl⟩
  pollsetAdd w pds := by simp [watchedSys, eventSys, Prod.map, Function.comp_def]
  pollsetDel _ _ := rfl
  wait w min ioq := by simp [watchedSys, eventSys, Prod.map, Function.comp_def]
  visit _ _ := rfl
  withdraw _ _ := rfl
  stay _ _ := rfl
  finish _ := rfl
  fdNew w fd := by simp [watchedSys, eventSys, Prod.map, Function.comp_def]
  outside _ _ := rfl

/-- What is relied on of epoll, where known says which descriptors it may report: those
that epoll_ctl was called with. -/
structure ReportsKnown (K : Kernel κ ω) (created : κ → Int → Prop) (known : κ → Int → Prop) : Prop where
  created : ∀ k epfd fd, created k epfd → ¬ known k fd
  ctl : ∀ k epfd op fd events x, known (K.epollCtl k epfd op fd events).1 x → known k x ∨ x = fd
  wait : ∀ k epfd size timeout x, known (K.epollWait k epfd size timeout).1 x → known k x
  events : ∀ k epfd size timeout, ∀ e ∈ (K.epollWait k epfd size timeout).2, known k e.1
  create : ∀ k size x, known (K.epollCreate k size).1 x → known k x
  close : ∀ k epfd x, known (K.close k epfd) x → known k x
  realloc : ∀ k n x, known (K.realloc k n).1 x → known k x
  outside : ∀ k change x, known (K.outside k change) x → known k x

section
variable {created : κ → Int → Prop} {known : κ → Int → Prop} (reports : ReportsKnown K created known)
include reports

theorem delOne_known {s : State κ} {pd : PollFd} {x : Int} (told : known (delOne K s pd).kern x) :
    known s.kern x ∨ x = pd.fd := by
  obtain ⟨-, same⟩ | ⟨-, -, -, same⟩ | ⟨-, -, -, same⟩ := delOne_cases (K := K) s pd <;> rw [same] at told
  · exact .inl told
  · exact reports.ctl _ _ _ _ _ _ told
  · exact reports.ctl _ _ _ _ _ _ told

theorem pollsetDel_known {s : State κ} {pds : List PollFd} {x : Int} (told : known (pollsetDel K s pds).kern x) :
    known s.kern x ∨ ∃ pd ∈ pds, x = pd.fd := by
  induction pds generalizing s with
  | nil => exact .inl told
  | cons pd pds ih =>
    rcases ih told with before | ⟨p, member, rfl⟩
    · rcases delOne_known reports before with old | rfl
      · exact .inl old
      · exact .inr ⟨pd, List.mem_cons_self .., rfl⟩
    · exact .inr ⟨p, List.mem_cons_of_mem _ member, rfl⟩

theorem addOne_known {s s' : State κ} {pd : PollFd} {error : Option AddError} {x : Int}
    (run : addOne K s pd = some (s', error)) (told : known s'.kern x) : known s.kern x ∨ x = pd.fd := by
  obtain ⟨-, -, rfl⟩ | ⟨-, op, -, ⟨-, -, -, rfl⟩ | ⟨-, -, size, -, kern⟩⟩ := addOne_cases run
  · exact .inl told
  · exact reports.ctl _ _ _ _ _ _ told
  · rcases kern with same | ⟨n, same⟩ <;> rw [same] at told
    · exact reports.ctl _ _ _ _ _ _ told
    · exact reports.ctl _ _ _ _ _ _ (reports.realloc _ _ _ told)

theorem addLoop_known {pds : List PollFd} {i : Nat} {s s' : State κ} {stop : Option (AddError × Nat)} {x : Int}
    (run : addLoop K pds i s = some (s', stop)) (told : known s'.kern x) : known s.kern x ∨ ∃ pd ∈ pds, x = pd.fd := by
  induction pds generalizing i s with
  | nil => cases run; exact .inl told
  | cons pd pds ih =>
    simp only [addLoop, Option.bind_eq_bind, Option.bind_eq_some_iff] at run
    obtain ⟨⟨s₁, error⟩, one, run⟩ := run
    have first : known s₁.kern x → known s.kern x ∨ ∃ p ∈ pd :: pds, x = p.fd := by
      intro told
      rcases addOne_known reports one told with old | rfl
      · exact .inl old
      · exact .inr ⟨pd, List.mem_cons_self .., rfl⟩
    cases error with
    | some e => cases run; exact first told
    | none =>
      rcases ih run with before | ⟨p, member, rfl⟩
      · exact first before
      · exact .inr ⟨p, List.mem_cons_of_mem _ member, rfl⟩

theorem fdDataExpand_known {s s' : State κ} {maxfd : Int} {ok : Bool} {x : Int}
    (run : fdDataExpand K s maxfd = some (s', ok)) (told : known s'.kern x) : known s.kern x := by
  simp only [fdDataExpand, Option.bind_eq_bind, Option.bind_eq_some_iff] at run
  obtain ⟨n, -, run⟩ := run
  split at run <;> cases run <;> exact reports.realloc _ _ _ told

theorem checkLoop_known {pds : List PollFd} {s s' : State κ} {error : Option AddError} {x : Int}
    (run : checkLoop K pds s = some (s', error)) (told : known s'.kern x) : known s.kern x := by
  induction pds generalizing s with
  | nil => cases run; exact told
  | cons pd pds ih =>
    rw [checkLoop] at run
    split at run
    · cases run; exact told
    · split at run
      · simp only [Option.bind_eq_bind, Option.bind_eq_some_iff] at run
        obtain ⟨⟨s₁, ok⟩, grown, run⟩ := run
        apply fdDataExpand_known reports grown
        cases ok with
        | false => cases run; exact told
        | true => exact ih run
      · exact ih run

theorem pollsetAdd_reach {s s' : State κ} {pds : List PollFd} {error : Option AddError} (size : 0 ≤ s.data.fdDataSize)
    (run : pollsetAdd K s pds = some (s', error)) :
    (∀ r ∈ addReaches K s pds, 0 ≤ r.1 ∧ r.1 < r.2) ∧
      ∀ x, known s'.kern x → known s.kern x ∨ s'.data.Has x := by
  simp only [pollsetAdd, Option.bind_eq_bind, Option.bind_eq_some_iff] at run
  obtain ⟨⟨s₁, refused⟩, checked, run⟩ := run
  obtain ⟨-, valid⟩ := checkLoop_size size checked
  rw [addReaches, checked]
  cases refused with
  | some e =>
    cases run
    exact ⟨by simp, fun x told => .inl (checkLoop_known reports checked told)⟩
  | none =>
    simp only [Option.bind_eq_some_iff] at run
    obtain ⟨⟨s₂, stop⟩, added, run⟩ := run
    obtain ⟨-, -, -, same, -⟩ := addLoop_data added
    have inside : ∀ pd ∈ pds, s₂.data.Has pd.fd := fun pd member => by
      rw [Data.Has, same]
      exact ⟨(valid rfl pd member).1.fd, (valid rfl pd member).2⟩
    have known₂ : ∀ x, known s₂.kern x → known s.kern x ∨ s₂.data.Has x := fun x told => by
      rcases addLoop_known reports added told with before | ⟨pd, member, rfl⟩
      · exact .inl (checkLoop_known reports checked before)
      · exact .inr (inside pd member)
    constructor
    · intro r member
      simp only [Data.reaches, List.map_map, List.mem_map, Function.comp_apply] at member
      obtain ⟨pd, there, rfl⟩ := member
      exact ⟨(valid rfl pd there).1.fd, (valid rfl pd there).2⟩
    · intro x told
      cases stop with
      | none => cases run; exact known₂ x told
      | some at_ =>
        cases run
        have size₂ := (pollsetDel_data (K := K) s₂ (pds.take (at_.2 + 1))).2.1
        rw [Data.Has, size₂]
        rcases pollsetDel_known reports told with before | ⟨pd, member, rfl⟩
        · exact known₂ x before
        · exact .inr (inside pd (List.mem_of_mem_take member))

theorem refill_reach {s s' : State κ} {ioq : List (List PollFd)} (size : 0 ≤ s.data.fdDataSize)
    (run : refill K s ioq = some s') : (∀ r ∈ refillReaches K ioq s, 0 ≤ r.1 ∧ r.1 < r.2) ∧
      ∀ x, known s'.kern x → known s.kern x ∨ s'.data.Has x := by
  induction ioq generalizing s with
  | nil =>
    cases run
    exact ⟨by simp [refillReaches], fun x told => .inl told⟩
  | cons pds ioq ih =>
    obtain ⟨s₁, error, added, run⟩ := refill_cons run
    obtain ⟨grew, -⟩ := pollsetAdd_size size added
    obtain ⟨reach, first⟩ := pollsetAdd_reach reports size added
    obtain ⟨later, rest⟩ := ih (size.trans grew) run
    constructor
    · rw [refillReaches, added]
      intro r member
      rcases List.mem_append.mp member with here | there
      · exact reach r here
      · exact later r there
    · intro x told
      rcases rest x told with before | inside
      · rcases first x before with old | inside
        · exact .inl old
        · exact .inr ⟨inside.1, lt_of_lt_of_le inside.2 (refill_size (size.trans grew) run)⟩
      · exact .inr inside

theorem afterFork_reach {s s' : State κ} {ioq : List (List PollFd)} {made : Bool} (size : 0 ≤ s.data.fdDataSize)
    (run : afterFork K s ioq = some (s', made)) : (∀ r ∈ forkReaches K s ioq, 0 ≤ r.1 ∧ r.1 < r.2) ∧
      ∀ x, known s'.kern x → known s.kern x ∨ s'.data.Has x := by
  unfold afterFork at run
  unfold forkReaches
  have old : ∀ x, known (K.epollCreate (K.close s.kern s.data.epfd) s.data.fdHint).1 x → known s.kern x :=
    fun x told => reports.close _ _ _ (reports.create _ _ _ told)
  dsimp only at run
  generalize K.epollCreate (K.close s.kern s.data.epfd) s.data.fdHint = answer at run old ⊢
  obtain ⟨kern, _ | epfd⟩ := answer
  · cases run
    exact ⟨by simp, fun x told => .inl (old x told)⟩
  · simp only [Option.bind_eq_bind, Option.bind_eq_some_iff] at run
    obtain ⟨s₁, refilled, run⟩ := run
    cases run
    obtain ⟨reach, rest⟩ := refill_reach (s := ⟨s.data.cleared epfd (K.getpid kern), kern⟩) reports size refilled
    exact ⟨reach, fun x told => (rest x told).imp_left (old x)⟩

theorem epollWait_reach {s : State κ} (timeout : Int) (inside : ∀ x, known s.kern x → s.data.Has x) :
    (∀ r ∈ markReaches K s timeout, 0 ≤ r.1 ∧ r.1 < r.2) ∧
      (∀ x, known (epollWait K s timeout).1.kern x → (epollWait K s timeout).1.data.Has x) ∧
      ∀ e ∈ (epollWait K s timeout).1.data.evtlist, (epollWait K s timeout).1.data.Has e.1 := by
  have events : ∀ e ∈ (K.epollWait s.kern s.data.epfd s.data.evtlistSize timeout).2, s.data.Has e.1 :=
    fun e member => inside _ (reports.events _ _ _ _ e member)
  have size := epollWait_size K s timeout
  refine ⟨fun r member => ?_, fun x told => ?_, fun e member => ?_⟩
  · simp only [markReaches, Data.reaches, List.map_map, List.mem_map, Function.comp_apply] at member
    obtain ⟨e, there, rfl⟩ := member
    exact events e there
  · rw [Data.Has, size]
    exact inside x (reports.wait _ _ _ _ _ told)
  · rw [Data.Has, size]
    have same : (epollWait K s timeout).1.data.evtlist =
        (K.epollWait s.kern s.data.epfd s.data.evtlistSize timeout).2 := by
      simp only [epollWait]
      rw [(marks_data _ _).2.2]
    rw [same] at member
    exact events e member

theorem wait_reach {s s' : State κ} {min : Option UTime} {ioq : List (List PollFd)} {found : Bool}
    (size : 0 ≤ s.data.fdDataSize) (inside : ∀ x, known s.kern x → s.data.Has x)
    (run : wait K s min ioq = some (s', found)) : (∀ r ∈ waitReaches K s min ioq, 0 ≤ r.1 ∧ r.1 < r.2) ∧
      (∀ x, known s'.kern x → s'.data.Has x) ∧ (found = true → ∀ e ∈ s'.data.evtlist, s'.data.Has e.1) := by
  unfold wait at run
  unfold waitReaches
  split at run
  · rename_i forked
    rw [if_pos forked]
    simp only [Option.bind_eq_bind, Option.bind_eq_some_iff] at run
    obtain ⟨⟨s₁, made⟩, again, run⟩ := run
    obtain ⟨reach, told⟩ := afterFork_reach reports size again
    have inside₁ : ∀ x, known s₁.kern x → s₁.data.Has x := by
      intro x there
      rcases told x there with before | here
      · exact ⟨(inside x before).1, lt_of_lt_of_le (inside x before).2 (afterFork_size size again)⟩
      · exact here
    rw [again]
    cases made with
    | false =>
      cases run
      exact ⟨by simp, inside₁, by simp⟩
    | true =>
      obtain ⟨marks, known', events⟩ := epollWait_reach reports (msTimeout min) inside₁
      cases run
      refine ⟨fun r member => ?_, known', fun _ => events⟩
      rcases List.mem_append.mp member with here | there
      · exact reach r here
      · exact marks r there
  · rename_i same
    rw [if_neg same]
    obtain ⟨marks, known', events⟩ := epollWait_reach reports (msTimeout min) inside
    cases run
    exact ⟨marks, known', fun _ => events⟩

theorem settles_known {s : State κ} {events : List (Int × BitVec 32)} {x : Int}
    (told : known (events.foldl (settle K) s).kern x) : known s.kern x ∨ ∃ e ∈ events, x = e.1 := by
  induction events generalizing s with
  | nil => exact .inl told
  | cons e events ih =>
    rcases ih told with before | ⟨p, member, rfl⟩
    · have one : known s.kern x ∨ x = e.1 := by
        obtain ⟨-, same⟩ | ⟨-, same⟩ := settle_cases (K := K) s e <;> rw [same] at before <;>
          exact reports.ctl _ _ _ _ _ _ before
      rcases one with old | rfl
      · exact .inl old
      · exact .inr ⟨e, List.mem_cons_self .., rfl⟩
    · exact .inr ⟨p, List.mem_cons_of_mem _ member, rfl⟩

end

/-- Inside the table are the descriptors the kernel knows and those that were accepted, and
so were all accesses. -/
structure Ranged (known : κ → Int → Prop) (w : Watched κ) (ps : List PollFd) : Prop where
  inside : Inside w.state ps
  known : ∀ fd, known w.state.kern fd → w.state.data.Has fd
  accepted : ∀ fd ∈ w.accepted, w.state.data.Has fd
  reached : ∀ r ∈ w.reached, 0 ≤ r.1 ∧ r.1 < r.2

variable {known : κ → Int → Prop} {created : κ → Int → Prop}

theorem Ranged.next {w w' : Watched κ} {ps qs : List PollFd} (ranged : Ranged known w ps) (new : List (Int × Int))
    (inside : Inside w'.state qs) (size : w.state.data.fdDataSize ≤ w'.state.data.fdDataSize)
    (told : ∀ x, known w'.state.kern x → known w.state.kern x ∨ w'.state.data.Has x)
    (accepted : ∀ fd ∈ w'.accepted, fd ∈ w.accepted ∨ w'.state.data.Has fd)
    (reached : w'.reached = new ++ w.reached) (fine : ∀ r ∈ new, 0 ≤ r.1 ∧ r.1 < r.2) : Ranged known w' qs := by
  have larger : ∀ fd, w.state.data.Has fd → w'.state.data.Has fd :=
    fun fd has => ⟨has.1, lt_of_lt_of_le has.2 size⟩
  constructor
  · exact inside
  · intro fd there
    rcases told fd there with before | here
    · exact larger fd (ranged.known fd before)
    · exact here
  · intro fd member
    rcases accepted fd member with before | here
    · exact larger fd (ranged.accepted fd before)
    · exact here
  · intro r member
    rw [reached] at member
    rcases List.mem_append.mp member with here | before
    · exact fine r here
    · exact ranged.reached r before

theorem Ranged.asks {w : Watched κ} {ps qs : List PollFd} (same : SameAsks ps qs) (ranged : Ranged known w ps) :
    Ranged known w qs :=
  ⟨ranged.inside.asks same, ranged.known, ranged.accepted, ranged.reached⟩

theorem Inside.reaches {s : State κ} {ps pds : List PollFd} (inside : Inside s ps) (sub : ∀ pd ∈ pds, pd ∈ ps) :
    ∀ r ∈ s.data.reaches (pds.map PollFd.fd), 0 ≤ r.1 ∧ r.1 < r.2 := by
  intro r member
  simp only [Data.reaches, List.map_map, List.mem_map, Function.comp_apply] at member
  obtain ⟨pd, there, rfl⟩ := member
  obtain ⟨valid, below⟩ := inside.2 pd (sub pd there)
  exact ⟨valid.fd, below⟩

theorem Ranged.deleted (reports : ReportsKnown K created known) {w : Watched κ} {ps pds : List PollFd}
    (ranged : Ranged known w (pds ++ ps)) : Ranged known (w.pollsetDel K pds) ps := by
  have inside := (Epoll.eventSys_inside K created).deleted _ _ _ ranged.inside
  have size := (pollsetDel_data (K := K) w.state pds).2.1
  refine ranged.next _ inside (le_of_eq size.symm) (fun x told => ?_) (fun fd member => .inl member) rfl
    (ranged.inside.reaches fun pd member => List.mem_append_left _ member)
  rcases pollsetDel_known reports told with before | ⟨pd, member, rfl⟩
  · exact .inl before
  · obtain ⟨valid, below⟩ := ranged.inside.2 pd (List.mem_append_left _ member)
    exact .inr ⟨valid.fd, lt_of_lt_of_le below (le_of_eq size.symm)⟩

theorem Ranged.added (reports : ReportsKnown K created known) {w : Watched κ} {s' : State κ} {ps qs pds : List PollFd}
    {error : Option AddError} {accepted : List Int} (ranged : Ranged known w ps)
    (run : Epoll.pollsetAdd K w.state pds = some (s', error)) (inside : Inside s' qs)
    (taken : ∀ fd ∈ accepted, fd ∈ w.accepted ∨ s'.data.Has fd) :
    Ranged known ⟨s', accepted, addReaches K w.state pds ++ w.reached⟩ qs := by
  obtain ⟨fine, told⟩ := pollsetAdd_reach reports ranged.inside.1 run
  exact ranged.next _ inside (pollsetAdd_size ranged.inside.1 run).1 told taken rfl fine

def RangedWalk (known : κ → Int → Prop) (w : Watched κ) (ps : List PollFd) : Prop :=
  Ranged known w ps ∧ ∀ e ∈ w.state.data.evtlist, w.state.data.Has e.1

theorem RangedWalk.finished (reports : ReportsKnown K created known) {w : Watched κ} {ps : List PollFd}
    (ranged : RangedWalk known w ps) : Ranged known ((watchedSys K created).finish w) ps := by
  obtain ⟨ranged, events⟩ := ranged
  have size := finish_size K w.state
  refine ranged.next _ ((Epoll.eventSys_inside K created).finished _ _ ranged.inside) (le_of_eq size.symm) (fun x told => ?_)
    (fun fd member => .inl member) rfl (fun r member => ?_)
  · rcases settles_known reports told with before | ⟨e, member, rfl⟩
    · exact .inl before
    · exact .inr ⟨(events e member).1, lt_of_lt_of_le (events e member).2 (le_of_eq size.symm)⟩
  · simp only [Data.reaches, List.map_map, List.mem_map, Function.comp_apply] at member
    obtain ⟨e, there, rfl⟩ := member
    exact events e there

theorem RangedWalk.withdrawn (reports : ReportsKnown K created known) {w : Watched κ} {ps pds : List PollFd}
    (ranged : RangedWalk known w (pds ++ ps)) : RangedWalk known (w.pollsetDel K pds) ps := by
  refine ⟨ranged.1.deleted reports, ?_⟩
  obtain ⟨-, size, frame⟩ := pollsetDel_data (K := K) w.state pds
  intro e member
  simp only [Watched.pollsetDel, frame.evtlist] at member
  obtain ⟨nonneg, below⟩ := ranged.2 e member
  exact ⟨nonneg, lt_of_lt_of_le below (le_of_eq size.symm)⟩

theorem RangedWalk.visited (K : Kernel κ ω) (created : κ → Int → Prop) {w : Watched κ} {ps pds : List PollFd} (ranged : RangedWalk known w (pds ++ ps)) :
    RangedWalk known ((watchedSys K created).visit w pds).1 (((watchedSys K created).visit w pds).2.1 ++ ps) := by
  have asks : SameAsks (pds ++ ps) (((watchedSys K created).visit w pds).2.1 ++ ps) := by
    apply SameAsks.of_eq
    simp only [watchedSys, visit, List.map_append, List.map_map]
    congr 1
    exact List.map_congr_left fun pd _ => (look_ask w.state.data pd).symm
  refine ⟨ranged.1.next _ (ranged.1.inside.asks asks) (le_refl _) (fun x told => .inl told)
    (fun fd member => .inl member) rfl ?_, ranged.2⟩
  exact ranged.1.inside.reaches fun pd member => List.mem_append_left _ member

theorem watchedSys_walk (reports : ReportsKnown K created known) :
    Walk (watchedSys K created) fun w todo kept => RangedWalk known w (todo.flatten ++ kept) where
  withdrawn w pds todo kept start _ := by
    rw [List.flatten_cons, List.append_assoc] at start
    exact (start.visited K created).withdrawn reports
  stayed w pds todo kept start _ := by
    rw [List.flatten_cons, List.append_assoc] at start
    obtain ⟨ranged, events⟩ := start.visited K created
    have moved := SameAsks.stayed (rfl : ((watchedSys K created).visit w pds).2.1.map PollFd.ask = _) todo kept
    rw [List.flatten_cons, List.append_assoc] at moved
    exact ⟨ranged.asks moved, events⟩

theorem fdNew_reach (reports : ReportsKnown K created known) {w : Watched κ} {s' : State κ} {ps : List PollFd} {osfd : Int}
    {error : Option AddError} (kept : Ranged known w ps) (run : fdNew K w.state osfd = some (s', error)) :
    Ranged known { w with state := s', accepted := if error = none ∧ 0 ≤ osfd then osfd :: w.accepted else w.accepted }
      ps := by
  have inside := (Epoll.eventSys_inside K created).fdNew _ _ _ _ _ kept.inside run
  have facts : w.state.data.fdDataSize ≤ s'.data.fdDataSize ∧ (∀ x, known s'.kern x → known w.state.kern x) ∧
      (error = none → osfd < s'.data.fdDataSize) := by
    unfold fdNew at run
    split at run
    · simp only [Option.map_eq_some_iff] at run
      obtain ⟨⟨s₁, ok⟩, expanded, same⟩ := run
      cases same
      obtain ⟨larger, above⟩ := fdDataExpand_size kept.inside.1 expanded
      refine ⟨larger, fun x told => fdDataExpand_known reports expanded told, fun none => above ?_⟩
      cases ok with
      | true => rfl
      | false => cases none
    · cases run
      exact ⟨le_refl _, fun x told => told, fun _ => by omega⟩
  obtain ⟨larger, told, above⟩ := facts
  refine kept.next [] inside larger (fun x there => .inl (told x there)) (fun fd member => ?_) rfl (by simp)
  dsimp only at member
  split at member
  · rename_i taken
    rcases List.mem_cons.mp member with rfl | old
    · exact .inr ⟨taken.2, above taken.1⟩
    · exact .inl old
  · exact .inl member

theorem watchedSys_keeps (reports : ReportsKnown K created known) :
    Keeping (watchedSys K created) (fun _ _ => True) (Ranged known) where
  asks _ _ _ same kept := kept.asks same
  initial w start := by
    obtain ⟨start, accepted, reached⟩ := start
    refine ⟨(Epoll.eventSys_inside K created).initial _ start, fun fd told => ?_, by simp [accepted], by simp [reached]⟩
    obtain ⟨fdlim, epfd, new, -⟩ := start
    exact absurd told (reports.created _ _ _ new)
  added w w' ps pds kept run := by
    simp only [watchedSys, Option.map_eq_some_iff] at run
    obtain ⟨⟨s', error⟩, added, same⟩ := run
    cases same
    have inside := (Epoll.eventSys_inside K created).added _ _ _ _ kept.inside added
    refine kept.added reports added inside (fun fd member => ?_)
    rcases List.mem_append.mp member with new | old
    · obtain ⟨pd, there, rfl⟩ := List.mem_map.mp new
      obtain ⟨valid, below⟩ := inside.2 pd (List.mem_append_right _ there)
      exact .inr ⟨valid.fd, below⟩
    · exact .inl old
  refused w w' ps pds error kept run := by
    simp only [watchedSys, Option.map_eq_some_iff] at run
    obtain ⟨⟨s', refusal⟩, added, same⟩ := run
    cases same
    exact kept.added reports added ((Epoll.eventSys_inside K created).refused _ _ _ _ _ kept.inside added)
      (fun fd member => .inl member)
  deleted w ps pds kept := kept.deleted reports
  dispatched s now time w' vp _ settled idle kept run := by
    simp only [dispatch, Option.bind_eq_bind, Option.bind_eq_some_iff] at run
    obtain ⟨⟨w₁, found⟩, answer, run⟩ := run
    simp only [watchedSys, Option.map_eq_some_iff] at answer
    obtain ⟨⟨s', hit⟩, waited, same⟩ := answer
    cases same
    obtain ⟨fine, told, events⟩ := wait_reach reports kept.inside.1 kept.known waited
    have larger := wait_size kept.inside.1 waited
    have after : Ranged known ⟨s', s.evt.accepted, waitReaches K s.evt.state (minTimeout s.vp) _ ++ s.evt.reached⟩
        (polled s.vp) :=
      kept.next _ (kept.inside.grown larger) larger (fun x there => .inr (told x there)) (fun fd member => .inl member)
        rfl fine
    cases hit with
    | false =>
      cases run
      exact after
    | true =>
      simp only [if_true, Option.bind_eq_some_iff] at run
      obtain ⟨⟨w₂, vp₁⟩, walked, run⟩ := run
      cases run
      rw [polled_flatten, ← List.append_nil (List.flatten _)] at after
      exact ((watchedSys_walk reports).dispatched settled idle walked ⟨after, events rfl⟩).finished reports
  fdNew w w' ps fd error kept run := by
    simp only [watchedSys, Option.map_eq_some_iff] at run
    obtain ⟨⟨s', refusal⟩, new, same⟩ := run
    cases same
    exact fdNew_reach reports kept new
  outside s change _ kept :=
    kept.next [] kept.inside (le_refl _) (fun x told => .inl (reports.outside _ _ _ told))
      (fun fd member => .inl member) rfl (by simp)

end StateThreads.Epoll
