import StateThreads.Contract.Polling
import StateThreads.Event.Growth

/-! What the table fd_data promises: a call that grows it ends with a size above the
descriptor, and a descriptor once accepted indexes the table from then on. -/
namespace StateThreads.Epoll
open LabelledRun

variable {κ ω : Type}

/-- The call ends with a size that is an int above maxfd, and the table follows the answer
of realloc: a larger one with empty new entries, or the old one. -/
def Expands (K : Kernel κ ω) (s : State κ) (maxfd : Int) : Prop :=
  ∃ n s', doubled maxfd 32 s.data.fdDataSize = some n ∧ maxfd < n ∧ 0 < n ∧ n < 2 ^ 31 ∧
    fdDataExpand K s maxfd = some (s', (K.realloc s.kern n).2) ∧
    if (K.realloc s.kern n).2 then
      s'.data = { s.data with fdData := s'.data.fdData, fdDataSize := n } ∧
        (∀ fd, fd < s.data.fdDataSize → s'.data.fdData fd = s.data.fdData fd) ∧
        ∀ fd, s.data.fdDataSize ≤ fd → fd < n → s'.data.fdData fd = ⟨0, 0, 0, 0⟩
    else s'.data = s.data

theorem fdDataExpand_eq {K : Kernel κ ω} {s : State κ} {maxfd n : Int}
    (ends : doubled maxfd 32 s.data.fdDataSize = some n) :
    fdDataExpand K s maxfd = some (⟨if (K.realloc s.kern n).2 then
        { s.data with
          fdData := fun fd => if s.data.fdDataSize ≤ fd ∧ fd < n then ⟨0, 0, 0, 0⟩ else s.data.fdData fd
          fdDataSize := n }
      else s.data, (K.realloc s.kern n).1⟩, (K.realloc s.kern n).2) := by
  simp only [fdDataExpand, ends, Option.bind_eq_bind, Option.bind_some]
  cases answer : (K.realloc s.kern n).2 <;> rfl

theorem expands_of_doubled {K : Kernel κ ω} {s : State κ} {maxfd n : Int} (pos : 0 < s.data.fdDataSize)
    (int : s.data.fdDataSize < 2 ^ 31) (ends : doubled maxfd 32 s.data.fdDataSize = some n) : Expands K s maxfd := by
  obtain ⟨above, larger⟩ := doubled_spec ends (le_of_lt pos)
  obtain ⟨small, -⟩ := doubled_int ends int
  refine ⟨n, _, ends, above, by omega, small, fdDataExpand_eq ends, ?_⟩
  cases answer : (K.realloc s.kern n).2 with
  | true =>
    refine ⟨rfl, fun fd below => ?_, fun fd new below => ?_⟩
    · exact if_neg (by omega)
    · exact if_pos ⟨new, below⟩
  | false => rfl

theorem expands_iff (K : Kernel κ ω) {s : State κ} {maxfd : Int} (pos : 0 < s.data.fdDataSize)
    (int : s.data.fdDataSize < 2 ^ 31) : Expands K s maxfd ↔ maxfd < topSize s.data.fdDataSize := by
  have enough : 2 ^ 31 ≤ s.data.fdDataSize * 2 ^ 32 := by omega
  rw [← doubled_iff pos int enough]
  constructor
  · rintro ⟨n, s', ends, -⟩
    exact ⟨n, ends⟩
  · rintro ⟨n, ends⟩
    exact expands_of_doubled pos int ends

/-- The loop on machine words, where a shift loses the top bit. -/
def growWord (maxfd : BitVec 32) : Nat → BitVec 32 → Option (BitVec 32)
  | 0, _ => none
  | fuel + 1, n => if n.sle maxfd then growWord maxfd fuel (n <<< 1) else some n

theorem growWord_none {maxfd n : BitVec 32} (low : ∀ k : Nat, (n <<< k).sle maxfd) (fuel k : Nat) :
    growWord maxfd fuel (n <<< k) = none := by
  induction fuel generalizing k with
  | zero => rfl
  | succ fuel ih =>
    rw [growWord, if_pos (low k), ← BitVec.shiftLeft_add]
    exact ih (k + 1)

theorem shifted_low (k : Nat) : (4096#32 <<< k).sle (.twoPow 32 30) := by
  by_cases small : k < 20
  · have each : ∀ k < 20, (4096#32 <<< k).sle (.twoPow 32 30) := by decide
    exact each k small
  · have zero : 4096#32 <<< k = 0 := by
      obtain ⟨j, rfl⟩ : ∃ j, k = 20 + j := ⟨k - 20, by omega⟩
      rw [BitVec.shiftLeft_add]
      simp
    rw [zero]
    decide

/-- With 4096 entries the loop for descriptor 2^30 leaves the range of an int, and on
machine words it goes on at size zero for ever. -/
theorem fd_data_growth_endless :
    (¬ ∀ (s : State Scripted) (maxfd : Int), 0 < s.data.fdDataSize → s.data.fdDataSize < 2 ^ 31 → 0 ≤ maxfd →
      maxfd < 2 ^ 31 → Expands scripted s maxfd) ∧ ∀ fuel, growWord (.twoPow 32 30) fuel 4096 = none := by
  constructor
  · intro claim
    obtain ⟨n, s', ends, -⟩ := claim ⟨init 4096 4 1, ⟨fun _ => none, []⟩⟩ (2 ^ 30) (by decide) (by decide) (by decide)
      (by decide)
    have never : doubled (2 ^ 30) 32 4096 = none := by decide
    exact absurd (never.symm.trans ends) (by simp)
  · exact fun fuel => growWord_none shifted_low fuel 0

/-- A call that grows the table does so exactly for descriptors below the largest doubling
of its size that is an int. In every run, and each has a run with the record, the accepted
descriptors are inside the table and no access is outside it. -/
theorem fd_data_growth (K : Kernel κ ω) (created known : κ → Int → Prop) (reports : ReportsKnown K created known) :
    (∀ (s : State κ) (maxfd : Int), 0 < s.data.fdDataSize → s.data.fdDataSize < 2 ^ 31 → 0 ≤ maxfd → maxfd < 2 ^ 31 →
      (Expands K s maxfd ↔ maxfd < topSize s.data.fdDataSize)) ∧
    (∀ hist s, SysRun (eventSys K created) hist s → ∃ past w, SysRun (watchedSys K created) past w ∧
      w.bare Watched.state = s) ∧
    ∀ hist s, SysRun (watchedSys K created) hist s →
      (∀ fd ∈ s.evt.accepted, s.evt.state.data.Has fd) ∧ ∀ r ∈ s.evt.reached, 0 ≤ r.1 ∧ r.1 < r.2 := by
  refine ⟨?_, ?_, ?_⟩
  · intro s maxfd pos int _ _
    exact expands_iff K pos int
  · intro hist s run
    exact (watched_shadows K created).run run
  · intro hist s run
    have kept := (watchedSys_keeps reports).run run fun _ _ => trivial
    exact ⟨kept.accepted, kept.reached⟩

theorem scripted_reports : ReportsKnown scripted startsEmpty fun k fd => k.registered fd ≠ none where
  created k epfd fd empty := by simp [empty fd]
  ctl k epfd op fd events x told := by
    by_cases same : x = fd
    · exact .inr same
    · left
      cases op <;> cases there : k.registered fd <;> simpa [scripted, there, same] using told
  wait _ _ _ _ _ told := told
  events k epfd size timeout e member := by
    obtain ⟨-, there⟩ := List.mem_filter.mp member
    intro none
    simp [none] at there
  create k size x told := by simp [scripted] at told
  close _ _ _ told := told
  realloc _ _ _ told := told
  outside _ _ _ told := told

def startedWatched : System (Watched Scripted) where
  vp := started.vp
  evt := ⟨started.evt, [], []⟩

theorem startedWatched_ok : Started (watchedSys scripted startsEmpty) startedWatched :=
  ⟨⟨started_ok.1, rfl, rfl⟩, started_ok.2⟩

/-- A table of 64 entries grows to 256 for an opened descriptor and to 512 for a polled
one, which then becomes readable. -/
theorem fd_data_growth_polled :
    ∃ hist s, SysRun (watchedSys scripted startsEmpty) hist s ∧
      (s.evt.accepted = [300, 200] ∧ s.evt.reached.length = 5 ∧ s.evt.state.data.fdDataSize = 512) ∧
      (∀ fd ∈ s.evt.accepted, s.evt.state.data.Has fd) ∧ (∀ r ∈ s.evt.reached, 0 ≤ r.1 ∧ r.1 < r.2) ∧
      Expands scripted s.evt.state 5000 := by
  obtain ⟨hist, s, run, seen⟩ := Run.found (M := machine (watchedSys scripted startsEmpty))
    [.call (.fdNew 200), .call (.poll [⟨300, pollIn, 0⟩] 900), .outside [(300, epollIn)], .idle 600 0, .resume]
    startedWatched_ok
    (p := fun _ s => decide (s.evt.accepted = [300, 200] ∧ s.evt.reached.length = 5 ∧
      s.evt.state.data.fdDataSize = 512))
    (by decide +kernel)
  have results := of_decide_eq_true seen
  obtain ⟨grows, -, ranges⟩ := fd_data_growth scripted startsEmpty _ scripted_reports
  obtain ⟨accepted, reached⟩ := ranges hist s run
  refine ⟨hist, s, run, results, accepted, reached, ?_⟩
  rw [grows s.evt.state 5000 (by omega) (by omega) (by omega) (by omega), results.2.2]
  decide

end StateThreads.Epoll
