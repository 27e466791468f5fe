import StateThreads.Event.Bookkeeping
import StateThreads.Event.Epoll

/-! The reference counts of the epoll event system. Whatever epoll_ctl, epoll_wait and
realloc answer, they are the numbers of pollfd entries on io_q. -/
namespace StateThreads.Epoll

def tally (kind : PollFd → Bool) (ps : List PollFd) (fd : Int) : Int :=
  ps.countP fun pd => pd.fd = fd && kind pd

theorem tally_append (kind : PollFd → Bool) (ps qs : List PollFd) (fd : Int) :
    tally kind (ps ++ qs) fd = tally kind ps fd + tally kind qs fd := by
  simp [tally, List.countP_append]

theorem tally_asks (kind : PollFd → Bool) (asked : ∃ k : Int × BitVec 16 → Bool, ∀ pd, kind pd = k pd.ask)
    {ps qs : List PollFd} (same : SameAsks ps qs) (fd : Int) : tally kind ps fd = tally kind qs fd := by
  obtain ⟨k, asked⟩ := asked
  have count : ∀ l : List PollFd, (l.countP fun pd => pd.fd = fd && kind pd) =
      (l.map PollFd.ask).countP fun a => a.1 = fd && k a := by
    intro l
    rw [List.countP_map]
    apply List.countP_congr
    intro pd _
    rw [asked]
    rfl
  rw [tally, tally, count, count, List.Perm.countP_eq _ same]

theorem tally_nonneg (kind : PollFd → Bool) (ps : List PollFd) (fd : Int) : 0 ≤ tally kind ps fd := by
  simp [tally]

theorem tally_pos_iff {kind : PollFd → Bool} {ps : List PollFd} {fd : Int} :
    0 < tally kind ps fd ↔ ∃ pd ∈ ps, pd.fd = fd ∧ kind pd = true := by
  simp [tally, List.countP_pos_iff]

theorem tally_unnamed {kind : PollFd → Bool} {ps : List PollFd} {fd : Int} (unnamed : ∀ pd ∈ ps, pd.fd ≠ fd) :
    tally kind ps fd = 0 := by
  have low := tally_nonneg kind ps fd
  by_contra h
  obtain ⟨pd, member, same, -⟩ := tally_pos_iff.mp (by omega : 0 < tally kind ps fd)
  exact unnamed pd member same

theorem tally_one (kind : PollFd → Bool) (pd : PollFd) (fd : Int) :
    tally kind [pd] fd = if fd = pd.fd ∧ kind pd = true then 1 else 0 := by
  by_cases h : fd = pd.fd
  · cases asks : kind pd <;> simp [tally, h, asks]
  · simp [tally, h, Ne.symm h]

def FdData.more (x : FdData) (ps : List PollFd) (fd : Int) : FdData where
  rdRefCnt := x.rdRefCnt + tally PollFd.reads ps fd
  wrRefCnt := x.wrRefCnt + tally PollFd.writes ps fd
  exRefCnt := x.exRefCnt + tally PollFd.excepts ps fd
  revents := x.revents

def FdData.less (x : FdData) (ps : List PollFd) (fd : Int) : FdData where
  rdRefCnt := x.rdRefCnt - tally PollFd.reads ps fd
  wrRefCnt := x.wrRefCnt - tally PollFd.writes ps fd
  exRefCnt := x.exRefCnt - tally PollFd.excepts ps fd
  revents := x.revents

@[simp] theorem FdData.more_nil (x : FdData) (fd : Int) : x.more [] fd = x := by
  simp [FdData.more, tally]

@[simp] theorem FdData.less_nil (x : FdData) (fd : Int) : x.less [] fd = x := by
  simp [FdData.less, tally]

theorem FdData.more_append (x : FdData) (ps qs : List PollFd) (fd : Int) :
    x.more (ps ++ qs) fd = (x.more ps fd).more qs fd := by
  simp [FdData.more, tally_append, Int.add_assoc]

theorem FdData.less_append (x : FdData) (ps qs : List PollFd) (fd : Int) :
    x.less (ps ++ qs) fd = (x.less ps fd).less qs fd := by
  simp [FdData.less, tally_append, Int.sub_sub]

@[simp] theorem FdData.more_less (x : FdData) (ps : List PollFd) (fd : Int) : (x.more ps fd).less ps fd = x := by
  simp [FdData.more, FdData.less]

theorem FdData.more_asks {ps qs : List PollFd} (same : SameAsks ps qs) (x : FdData) (fd : Int) :
    x.more ps fd = x.more qs fd := by
  simp only [FdData.more, tally_asks PollFd.reads ⟨fun a => a.2 &&& pollIn ≠ 0, fun _ => rfl⟩ same,
    tally_asks PollFd.writes ⟨fun a => a.2 &&& pollOut ≠ 0, fun _ => rfl⟩ same,
    tally_asks PollFd.excepts ⟨fun a => a.2 &&& pollPri ≠ 0, fun _ => rfl⟩ same]

theorem count_one (d : Data) (pd : PollFd) (fd : Int) :
    (d.setFd pd.fd ((d.fdData pd.fd).count pd 1)).fdData fd = (d.fdData fd).more [pd] fd ∧
      (d.setFd pd.fd ((d.fdData pd.fd).count pd (-1))).fdData fd = (d.fdData fd).less [pd] fd := by
  by_cases h : fd = pd.fd
  · subst h
    simp only [Data.setFd, Function.update_self, FdData.count, FdData.more, FdData.less, tally_one, true_and]
    cases pd.reads <;> cases pd.writes <;> cases pd.excepts <;> simp [Int.sub_eq_add_neg]
  · simp [Data.setFd, h, FdData.more, FdData.less, tally_one]

variable {κ ω : Type} {K : Kernel κ ω}

structure SameFrame (d d' : Data) : Prop where
  evtlist : d'.evtlist = d.evtlist
  epfd : d'.epfd = d.epfd
  pid : d'.pid = d.pid

theorem SameFrame.refl (d : Data) : SameFrame d d := ⟨rfl, rfl, rfl⟩

theorem SameFrame.trans {d d' d'' : Data} (first : SameFrame d d') (second : SameFrame d' d'') : SameFrame d d'' :=
  ⟨second.evtlist.trans first.evtlist, second.epfd.trans first.epfd, second.pid.trans first.pid⟩

@[simp] theorem Data.setFd_epfd (d : Data) (fd : Int) (x : FdData) : (d.setFd fd x).epfd = d.epfd := rfl

def Data.moved (d : Data) (pd : PollFd) (by_ : Int) : Data := d.setFd pd.fd ((d.fdData pd.fd).count pd by_)

def Data.mask (d : Data) (fd : Int) : BitVec 32 := (d.fdData fd).events

theorem Data.moved_self (d : Data) (pd : PollFd) (by_ : Int) :
    (d.moved pd by_).fdData pd.fd = (d.fdData pd.fd).count pd by_ := by
  simp [Data.moved, Data.setFd]

theorem delOne_cases (s : State κ) (pd : PollFd) :
    (((s.data.moved pd (-1)).mask pd.fd = s.data.mask pd.fd ∨ (s.data.fdData pd.fd).revents ≠ 0) ∧
      delOne K s pd = ⟨s.data.moved pd (-1), s.kern⟩) ∨
    ((s.data.moved pd (-1)).mask pd.fd ≠ s.data.mask pd.fd ∧ (s.data.fdData pd.fd).revents = 0 ∧
      (s.data.moved pd (-1)).mask pd.fd ≠ 0 ∧
      delOne K s pd = ⟨s.data.moved pd (-1),
        (K.epollCtl s.kern s.data.epfd .mod pd.fd ((s.data.moved pd (-1)).mask pd.fd)).1⟩) ∨
    ((s.data.moved pd (-1)).mask pd.fd ≠ s.data.mask pd.fd ∧ (s.data.fdData pd.fd).revents = 0 ∧
      (s.data.moved pd (-1)).mask pd.fd = 0 ∧
      delOne K s pd = ⟨{ s.data.moved pd (-1) with
          evtlistCnt := if (K.epollCtl s.kern s.data.epfd .del pd.fd 0).2 = none then s.data.evtlistCnt - 1
            else s.data.evtlistCnt },
        (K.epollCtl s.kern s.data.epfd .del pd.fd 0).1⟩) := by
  have revents : ((s.data.fdData pd.fd).count pd (-1)).revents = (s.data.fdData pd.fd).revents := rfl
  unfold Data.mask
  simp only [Data.moved_self, delOne, revents, Data.setFd_epfd]
  by_cases changed : ((s.data.fdData pd.fd).count pd (-1)).events = (s.data.fdData pd.fd).events
  · exact .inl ⟨.inl changed, by simp [changed, Data.moved]⟩
  · by_cases fired : (s.data.fdData pd.fd).revents = 0
    · by_cases left : ((s.data.fdData pd.fd).count pd (-1)).events = 0
      · refine .inr (.inr ⟨changed, fired, left, ?_⟩)
        rw [left] at changed
        simp only [left, changed, fired, ne_eq, not_true_eq_false, not_false_eq_true, and_self, if_true, if_false, and_true]
        by_cases ok : (K.epollCtl s.kern s.data.epfd .del pd.fd 0).2 = none
        · rw [if_pos ok, if_pos ok]; rfl
        · rw [if_neg ok, if_neg ok]; rfl
      · refine .inr (.inl ⟨changed, fired, left, ?_⟩)
        simp only [changed, fired, left, ne_eq, not_false_eq_true, and_self, if_true, reduceCtorEq, and_false, if_false]
        rfl
    · refine .inl ⟨.inr fired, ?_⟩
      rw [if_neg fun h => fired h.2]
      rfl

theorem delOne_data (s : State κ) (pd : PollFd) :
    (∀ fd, (delOne K s pd).data.fdData fd = (s.data.fdData fd).less [pd] fd) ∧
      (delOne K s pd).data.fdDataSize = s.data.fdDataSize ∧ SameFrame s.data (delOne K s pd).data := by
  have counts := fun fd => (count_one s.data pd fd).2
  obtain ⟨-, same⟩ | ⟨-, -, -, same⟩ | ⟨-, -, -, same⟩ := delOne_cases (K := K) s pd <;>
  · rw [same]
    exact ⟨counts, rfl, ⟨rfl, rfl, rfl⟩⟩

theorem pollsetDel_data (s : State κ) (pds : List PollFd) :
    (∀ fd, (pollsetDel K s pds).data.fdData fd = (s.data.fdData fd).less pds fd) ∧
      (pollsetDel K s pds).data.fdDataSize = s.data.fdDataSize ∧ SameFrame s.data (pollsetDel K s pds).data := by
  unfold pollsetDel
  induction pds generalizing s with
  | nil => exact ⟨fun fd => by simp, rfl, .refl _⟩
  | cons pd pds ih =>
    obtain ⟨counts, size, frame⟩ := delOne_data (K := K) s pd
    obtain ⟨counts', size', frame'⟩ := ih (delOne K s pd)
    refine ⟨fun fd => ?_, size'.trans size, frame.trans frame'⟩
    rw [List.foldl_cons, counts', counts, ← FdData.less_append, List.singleton_append]

theorem evtlistExpand_data {s s' : State κ} (run : evtlistExpand K s = some s') :
    s'.data = { s.data with evtlistSize := s'.data.evtlistSize } ∧
      (s'.kern = s.kern ∨ ∃ n, s'.kern = (K.realloc s.kern n).1) := by
  simp only [evtlistExpand, Option.bind_eq_bind, Option.bind_eq_some_iff] at run
  obtain ⟨n, -, run⟩ := run
  split at run <;> cases run
  · exact ⟨rfl, .inr ⟨n, rfl⟩⟩
  · exact ⟨rfl, .inr ⟨n, rfl⟩⟩

theorem addOne_cases {s s' : State κ} {pd : PollFd} {error : Option AddError}
    (run : addOne K s pd = some (s', error)) :
    ((s.data.moved pd 1).mask pd.fd = s.data.mask pd.fd ∧ error = none ∧ s' = ⟨s.data.moved pd 1, s.kern⟩) ∨
    ((s.data.moved pd 1).mask pd.fd ≠ s.data.mask pd.fd ∧ ∃ op, (op = if s.data.mask pd.fd ≠ 0 then CtlOp.mod else .add) ∧
      let answer := K.epollCtl s.kern s.data.epfd op pd.fd ((s.data.moved pd 1).mask pd.fd)
      (answer.2 ≠ none ∧ error = answer.2 ∧ (op ≠ .add ∨ answer.2 ≠ some .eexist) ∧
        s' = ⟨s.data.moved pd 1, answer.1⟩) ∨
      ((answer.2 = none ∨ op = .add ∧ answer.2 = some .eexist) ∧ error = none ∧ ∃ size,
        s'.data = { s.data.moved pd 1 with
          evtlistSize := size
          evtlistCnt := if op = .add then s.data.evtlistCnt + 1 else s.data.evtlistCnt } ∧
        (s'.kern = answer.1 ∨ ∃ n, s'.kern = (K.realloc answer.1 n).1))) := by
  unfold Data.mask
  simp only [Data.moved_self]
  simp only [addOne, Data.setFd_epfd] at run
  by_cases changed : ((s.data.fdData pd.fd).count pd 1).events = (s.data.fdData pd.fd).events
  · rw [if_neg (by simp [changed])] at run
    cases run
    exact .inl ⟨changed, rfl, rfl⟩
  · rw [if_pos changed] at run
    refine .inr ⟨changed, _, rfl, ?_⟩
    generalize (if (s.data.fdData pd.fd).events ≠ 0 then CtlOp.mod else .add) = op at run ⊢
    set answer := K.epollCtl s.kern s.data.epfd op pd.fd ((s.data.fdData pd.fd).count pd 1).events with known
    change (if answer.2 ≠ none ∧ (op ≠ .add ∨ answer.2 ≠ some .eexist) then _ else _) = _ at run
    by_cases failed : answer.2 ≠ none ∧ (op ≠ .add ∨ answer.2 ≠ some .eexist)
    · rw [if_pos failed] at run
      cases run
      exact .inl ⟨failed.1, rfl, failed.2, rfl⟩
    · rw [if_neg failed] at run
      have ok : answer.2 = none ∨ op = .add ∧ answer.2 = some .eexist := by
        by_contra h
        simp only [not_or, not_and] at h
        refine failed ⟨h.1, ?_⟩
        by_cases add : op = .add
        · exact .inr (h.2 add)
        · exact .inl add
      refine .inr ⟨ok, ?_⟩
      by_cases add : op = .add
      · rw [if_pos add] at run
        simp only [add, if_true]
        split at run
        · simp only [Option.map_eq_some_iff] at run
          obtain ⟨s₁, grown, same⟩ := run
          cases same
          obtain ⟨data, kern⟩ := evtlistExpand_data grown
          exact ⟨rfl, _, data, kern⟩
        · cases run
          exact ⟨rfl, _, rfl, .inl rfl⟩
      · rw [if_neg add] at run
        simp only [add, if_false]
        cases run
        exact ⟨rfl, _, rfl, .inl rfl⟩

theorem addOne_data {s s' : State κ} {pd : PollFd} {error : Option AddError}
    (run : addOne K s pd = some (s', error)) :
    (∀ fd, s'.data.fdData fd = (s.data.fdData fd).more [pd] fd) ∧
      s'.data.fdDataSize = s.data.fdDataSize ∧ SameFrame s.data s'.data := by
  have counts := fun fd => (count_one s.data pd fd).1
  obtain ⟨-, -, rfl⟩ | ⟨-, op, -, ⟨-, -, -, rfl⟩ | ⟨-, -, size, data, -⟩⟩ := addOne_cases run
  · exact ⟨counts, rfl, ⟨rfl, rfl, rfl⟩⟩
  · exact ⟨counts, rfl, ⟨rfl, rfl, rfl⟩⟩
  · rw [data]
    exact ⟨counts, rfl, ⟨rfl, rfl, rfl⟩⟩

theorem addLoop_data {pds : List PollFd} {i : Nat} {s s' : State κ} {stop : Option (AddError × Nat)}
    (run : addLoop K pds i s = some (s', stop)) :
    ∃ n, (stop = none ∧ pds.take n = pds ∨ ∃ e j, stop = some (e, i + j) ∧ n = j + 1) ∧
      (∀ fd, s'.data.fdData fd = (s.data.fdData fd).more (pds.take n) fd) ∧
      s'.data.fdDataSize = s.data.fdDataSize ∧ SameFrame s.data s'.data := by
  induction pds generalizing i s with
  | nil =>
    cases run
    exact ⟨0, .inl ⟨rfl, rfl⟩, fun fd => by simp, rfl, .refl _⟩
  | cons pd pds ih =>
    simp only [addLoop, Option.bind_eq_bind, Option.bind_eq_some_iff] at run
    obtain ⟨⟨s₁, error⟩, one, run⟩ := run
    obtain ⟨counts, size, frame⟩ := addOne_data one
    cases error with
    | some e =>
      cases run
      exact ⟨1, .inr ⟨e, 0, rfl, rfl⟩, by simpa using counts, size, frame⟩
    | none =>
      obtain ⟨n, stopped, counts', size', frame'⟩ := ih run
      refine ⟨n + 1, ?_, fun fd => ?_, size'.trans size, frame.trans frame'⟩
      · obtain ⟨none, all⟩ | ⟨e, j, stopped, rfl⟩ := stopped
        · exact .inl ⟨none, by rw [List.take_succ_cons, all]⟩
        · exact .inr ⟨e, j + 1, by rw [stopped]; congr 2; omega, rfl⟩
      · rw [counts', counts, ← FdData.more_append, List.take_succ_cons, List.singleton_append]

/- Growing the table. -/

theorem doubled_spec {bound : Int} {fuel : Nat} {n m : Int} (run : doubled bound fuel n = some m) (start : 0 ≤ n) :
    bound < m ∧ n ≤ m := by
  induction fuel generalizing n with
  | zero => cases run
  | succ fuel ih =>
    unfold doubled at run
    split at run
    · cases run; omega
    · split at run
      · cases run
      · obtain ⟨above, larger⟩ := ih run (by omega)
        omega

def Data.Blank (d : Data) : Prop := 0 ≤ d.fdDataSize ∧ ∀ fd, d.fdDataSize ≤ fd → d.fdData fd = ⟨0, 0, 0, 0⟩

structure Grown (K : Kernel κ ω) (s s' : State κ) : Prop where
  fdData : s'.data.fdData = s.data.fdData
  size : s.data.fdDataSize ≤ s'.data.fdDataSize
  rest : s'.data = { s.data with fdData := s'.data.fdData, fdDataSize := s'.data.fdDataSize }
  kern : ∀ P : κ → Prop, (∀ k n, P k → P (K.realloc k n).1) → P s.kern → P s'.kern

theorem Grown.refl (s : State κ) : Grown K s s := ⟨rfl, le_refl _, rfl, fun _ _ h => h⟩

theorem Grown.trans {s s' s'' : State κ} (first : Grown K s s') (second : Grown K s' s'') : Grown K s s'' where
  fdData := second.fdData.trans first.fdData
  size := first.size.trans second.size
  rest := by rw [second.rest, first.rest]
  kern P kept h := second.kern P kept (first.kern P kept h)

theorem Grown.blank {s s' : State κ} (grown : Grown K s s') (blank : s.data.Blank) : s'.data.Blank := by
  obtain ⟨size, zero⟩ := blank
  refine ⟨size.trans grown.size, fun fd beyond => ?_⟩
  rw [grown.fdData]
  exact zero fd (grown.size.trans beyond)

theorem fdDataExpand_spec {s s' : State κ} {maxfd : Int} {ok : Bool} (blank : s.data.Blank)
    (run : fdDataExpand K s maxfd = some (s', ok)) : Grown K s s' ∧ (ok = true → maxfd < s'.data.fdDataSize) := by
  obtain ⟨size, zero⟩ := blank
  simp only [fdDataExpand, Option.bind_eq_bind, Option.bind_eq_some_iff] at run
  obtain ⟨n, grown, run⟩ := run
  obtain ⟨above, larger⟩ := doubled_spec grown size
  split at run <;> cases run
  · refine ⟨⟨?_, larger, rfl, fun P kept h => kept _ _ h⟩, fun _ => above⟩
    funext fd
    simp only
    split
    · rename_i inside
      exact (zero fd inside.1).symm
    · rfl
  · exact ⟨⟨rfl, le_refl _, rfl, fun P kept h => kept _ _ h⟩, by simp⟩

structure Valid (pd : PollFd) : Prop where
  fd : 0 ≤ pd.fd
  some_ : pd.events ≠ 0
  known : pd.events &&& ~~~(pollIn ||| pollOut ||| pollPri) = 0

theorem checkLoop_spec {pds : List PollFd} {s s' : State κ} {error : Option AddError} (blank : s.data.Blank)
    (run : checkLoop K pds s = some (s', error)) :
    Grown K s s' ∧ (error = none → ∀ pd ∈ pds, Valid pd ∧ pd.fd < s'.data.fdDataSize) := by
  induction pds generalizing s with
  | nil => cases run; exact ⟨.refl _, by simp⟩
  | cons pd pds ih =>
    unfold checkLoop at run
    split at run
    · cases run; exact ⟨.refl _, by simp⟩
    · rename_i valid
      have valid : Valid pd := by
        simp only [not_or, Int.not_lt, ne_eq, not_not] at valid
        exact ⟨valid.1, valid.2.1, valid.2.2⟩
      split at run
      · simp only [Option.bind_eq_bind, Option.bind_eq_some_iff] at run
        obtain ⟨⟨s₁, ok⟩, grown, run⟩ := run
        obtain ⟨grew, above⟩ := fdDataExpand_spec blank grown
        cases ok with
        | false => cases run; exact ⟨grew, by simp⟩
        | true =>
          obtain ⟨rest, checked⟩ := ih (grew.blank blank) run
          refine ⟨grew.trans rest, fun none p member => ?_⟩
          obtain rfl | member := List.mem_cons.mp member
          · exact ⟨valid, lt_of_lt_of_le (above rfl) rest.size⟩
          · exact checked none p member
      · rename_i inside
        obtain ⟨rest, checked⟩ := ih blank run
        refine ⟨rest, fun none p member => ?_⟩
        obtain rfl | member := List.mem_cons.mp member
        · exact ⟨valid, lt_of_lt_of_le (by omega) rest.size⟩
        · exact checked none p member

theorem pollsetAdd_data {s s' : State κ} {pds : List PollFd} {error : Option AddError} (blank : s.data.Blank)
    (run : pollsetAdd K s pds = some (s', error)) :
    s.data.fdDataSize ≤ s'.data.fdDataSize ∧ SameFrame s.data s'.data ∧
      (error = none → (∀ fd, s'.data.fdData fd = (s.data.fdData fd).more pds fd) ∧
        ∀ pd ∈ pds, Valid pd ∧ pd.fd < s'.data.fdDataSize) ∧
      (error ≠ none → s'.data.fdData = s.data.fdData) := by
  simp only [pollsetAdd, Option.bind_eq_bind, Option.bind_eq_some_iff] at run
  obtain ⟨⟨s₁, refused⟩, checked, run⟩ := run
  obtain ⟨grown, valid⟩ := checkLoop_spec blank checked
  have frame : SameFrame s.data s₁.data := by rw [grown.rest]; exact ⟨rfl, rfl, rfl⟩
  cases refused with
  | some e =>
    cases run
    exact ⟨grown.size, frame, by simp, fun _ => grown.fdData⟩
  | none =>
    simp only [Option.bind_eq_some_iff] at run
    obtain ⟨⟨s₂, stop⟩, added, run⟩ := run
    obtain ⟨n, stopped, counts, size, frame₂⟩ := addLoop_data added
    rw [grown.fdData] at counts
    obtain ⟨rfl, all⟩ | ⟨e, j, rfl, rfl⟩ := stopped
    · cases run
      rw [all] at counts
      refine ⟨by rw [size]; exact grown.size, frame.trans frame₂, fun _ => ⟨counts, fun pd member => ?_⟩, by simp⟩
      rw [size]
      exact valid rfl pd member
    · cases run
      obtain ⟨less, size', frame₃⟩ := pollsetDel_data (K := K) s₂ (pds.take (0 + j + 1))
      rw [Nat.zero_add] at less size' frame₃ ⊢
      refine ⟨by rw [size', size]; exact grown.size, (frame.trans frame₂).trans frame₃, by simp, fun _ => ?_⟩
      funext fd
      rw [less, counts, FdData.more_less]

/- The invariant. -/

def FdData.quiet (x : FdData) : FdData := { x with revents := 0 }

structure Counted (d : Data) (ps : List PollFd) : Prop where
  counts : ∀ fd, (d.fdData fd).quiet = FdData.more ⟨0, 0, 0, 0⟩ ps fd
  inside : ∀ pd ∈ ps, Valid pd ∧ pd.fd < d.fdDataSize
  size : 0 ≤ d.fdDataSize

def Accounts (s : State κ) (ps : List PollFd) : Prop := Counted s.data ps ∧ ∀ fd, (s.data.fdData fd).revents = 0

/-- During the walk of dispatch, only the descriptors in the event list have revents. -/
def Walking (s : State κ) (ps : List PollFd) : Prop :=
  Counted s.data ps ∧ ∀ fd, (s.data.fdData fd).revents ≠ 0 → fd ∈ s.data.evtlist.map Prod.fst

theorem Counted.asks {d : Data} {ps qs : List PollFd} (same : SameAsks ps qs) (counted : Counted d ps) :
    Counted d qs where
  counts fd := by rw [counted.counts, FdData.more_asks same]
  inside pd member := by
    have asked : pd.ask ∈ ps.map PollFd.ask := (List.Perm.mem_iff same).mpr (List.mem_map_of_mem member)
    obtain ⟨p, there, equal⟩ := List.mem_map.mp asked
    obtain ⟨fd, events⟩ := Prod.mk.inj equal
    obtain ⟨⟨nonneg, some_, known⟩, below⟩ := counted.inside p there
    rw [fd] at nonneg below
    rw [events] at some_ known
    exact ⟨⟨nonneg, some_, known⟩, below⟩
  size := counted.size

theorem Counted.blank {s : State κ} {ps : List PollFd} (counted : Counted s.data ps)
    (quiet : ∀ fd, (s.data.fdData fd).revents = 0) : s.data.Blank := by
  refine ⟨counted.size, fun fd beyond => ?_⟩
  have none : ∀ kind, tally kind ps fd = 0 := by
    intro kind
    apply tally_unnamed
    rintro pd member rfl
    exact absurd (counted.inside pd member).2 (by omega)
  have counts := counted.counts fd
  simp only [FdData.quiet, FdData.more, none, add_zero, FdData.mk.injEq] at counts
  have rev := quiet fd
  generalize s.data.fdData fd = x at counts rev
  obtain ⟨rd, wr, ex, re⟩ := x
  simp_all

theorem Valid.counted {pd : PollFd} (valid : Valid pd) :
    pd.reads = true ∨ pd.writes = true ∨ pd.excepts = true := by
  obtain ⟨-, some_, known⟩ := valid
  by_contra none
  simp only [not_or, PollFd.reads, PollFd.writes, PollFd.excepts, decide_eq_true_eq, ne_eq, not_not] at none
  obtain ⟨noIn, noOut, noPri⟩ := none
  apply some_
  have split : pd.events = (pd.events &&& pollIn) ||| (pd.events &&& pollOut) ||| (pd.events &&& pollPri) |||
      (pd.events &&& ~~~(pollIn ||| pollOut ||| pollPri)) := by
    rw [← BitVec.and_or_distrib_left, ← BitVec.and_or_distrib_left, ← BitVec.and_or_distrib_left,
      show pollIn ||| pollOut ||| pollPri ||| ~~~(pollIn ||| pollOut ||| pollPri) = BitVec.allOnes 16 from rfl,
      BitVec.and_allOnes]
  rw [split, noIn, noOut, noPri, known]
  rfl

theorem FdData.events_eq_zero (x : FdData) : x.events = 0 ↔ x.rdRefCnt = 0 ∧ x.wrRefCnt = 0 ∧ x.exRefCnt = 0 := by
  unfold FdData.events
  by_cases rd : x.rdRefCnt = 0 <;> by_cases wr : x.wrRefCnt = 0 <;> by_cases ex : x.exRefCnt = 0 <;>
    simp [rd, wr, ex, epollIn, epollOut, epollPri]

/-- A descriptor has an empty mask exactly while no entry names it. -/
theorem Counted.mask_eq_zero {d : Data} {ps : List PollFd} (counted : Counted d ps) (fd : Int) :
    d.mask fd = 0 ↔ ∀ pd ∈ ps, pd.fd ≠ fd := by
  have counts := counted.counts fd
  simp only [FdData.quiet, FdData.more, zero_add, FdData.mk.injEq, and_true] at counts
  obtain ⟨rd, wr, ex⟩ := counts
  rw [Data.mask, FdData.events_eq_zero, rd, wr, ex]
  constructor
  · rintro ⟨noRd, noWr, noEx⟩ pd member same
    obtain reads | writes | excepts := (counted.inside pd member).1.counted
    · exact absurd (tally_pos_iff.mpr ⟨pd, member, same, reads⟩) (by omega)
    · exact absurd (tally_pos_iff.mpr ⟨pd, member, same, writes⟩) (by omega)
    · exact absurd (tally_pos_iff.mpr ⟨pd, member, same, excepts⟩) (by omega)
  · intro unnamed
    exact ⟨tally_unnamed unnamed, tally_unnamed unnamed, tally_unnamed unnamed⟩

theorem Counted.more {d d' : Data} {ps pds : List PollFd} (counted : Counted d ps)
    (more : ∀ fd, d'.fdData fd = (d.fdData fd).more pds fd) (size : d.fdDataSize ≤ d'.fdDataSize)
    (valid : ∀ pd ∈ pds, Valid pd ∧ pd.fd < d'.fdDataSize) : Counted d' (ps ++ pds) where
  counts fd := by
    have moved : ((d.fdData fd).more pds fd).quiet = (d.fdData fd).quiet.more pds fd := rfl
    rw [more, moved, counted.counts, ← FdData.more_append]
  inside pd member := by
    obtain old | new := List.mem_append.mp member
    · obtain ⟨ok, below⟩ := counted.inside pd old
      exact ⟨ok, lt_of_lt_of_le below size⟩
    · exact valid pd new
  size := counted.size.trans size

theorem Counted.grown {d d' : Data} {ps : List PollFd} (counted : Counted d ps) (same : d'.fdData = d.fdData)
    (size : d.fdDataSize ≤ d'.fdDataSize) : Counted d' ps := by
  have none : Counted d' (ps ++ []) := counted.more (fun fd => by rw [same, FdData.more_nil]) size (by simp)
  rwa [List.append_nil] at none

theorem Counted.less {d d' : Data} {ps pds : List PollFd} (counted : Counted d (pds ++ ps))
    (less : ∀ fd, d'.fdData fd = (d.fdData fd).less pds fd) (size : d'.fdDataSize = d.fdDataSize) :
    Counted d' ps where
  counts fd := by
    have quiet : ((d.fdData fd).less pds fd).quiet = (d.fdData fd).quiet.less pds fd := rfl
    rw [less, quiet, counted.counts]
    simp only [FdData.more, FdData.less, tally_append, FdData.mk.injEq, and_true]
    omega
  inside pd member := by rw [size]; exact counted.inside pd (List.mem_append_right _ member)
  size := by rw [size]; exact counted.size

theorem Accounts.added {s s' : State κ} {ps pds : List PollFd} {error : Option AddError} (kept : Accounts s ps)
    (run : pollsetAdd K s pds = some (s', error)) :
    (error = none → Accounts s' (ps ++ pds)) ∧ (error ≠ none → Accounts s' ps) := by
  obtain ⟨counted, quiet⟩ := kept
  obtain ⟨size, -, added, refused⟩ := pollsetAdd_data (counted.blank quiet) run
  refine ⟨fun none => ?_, fun some_ => ?_⟩
  · obtain ⟨counts, valid⟩ := added none
    refine ⟨counted.more counts size valid, fun fd => ?_⟩
    rw [counts]
    exact quiet fd
  · have same := refused some_
    refine ⟨counted.grown same size, fun fd => ?_⟩
    rw [same]
    exact quiet fd

theorem Accounts.deleted {s : State κ} {ps pds : List PollFd} (kept : Accounts s (pds ++ ps)) :
    Accounts (pollsetDel K s pds) ps := by
  obtain ⟨less, size, -⟩ := pollsetDel_data (K := K) s pds
  exact ⟨kept.1.less less size, fun fd => by rw [less]; exact kept.2 fd⟩

theorem Walking.withdrawn {s : State κ} {ps pds : List PollFd} (kept : Walking s (pds ++ ps)) :
    Walking (pollsetDel K s pds) ps := by
  obtain ⟨less, size, frame⟩ := pollsetDel_data (K := K) s pds
  refine ⟨kept.1.less less size, fun fd fired => ?_⟩
  rw [less] at fired
  rw [frame.evtlist]
  exact kept.2 fd fired

/- Dispatch. -/

theorem mark_data (d : Data) (e : Int × BitVec 32) :
    (∀ fd, ((mark d e).fdData fd).quiet = (d.fdData fd).quiet) ∧
      (∀ fd, fd ≠ e.1 → (mark d e).fdData fd = d.fdData fd) ∧
      mark d e = { d with fdData := (mark d e).fdData } := by
  refine ⟨fun fd => ?_, fun fd other => ?_, rfl⟩
  · by_cases h : fd = e.1
    · subst h; simp [mark, Data.setFd, FdData.quiet]
    · simp [mark, Data.setFd, h]
  · simp [mark, Data.setFd, other]

theorem marks_data (events : List (Int × BitVec 32)) (d : Data) :
    (∀ fd, ((events.foldl mark d).fdData fd).quiet = (d.fdData fd).quiet) ∧
      (∀ fd, fd ∉ events.map Prod.fst → (events.foldl mark d).fdData fd = d.fdData fd) ∧
      events.foldl mark d = { d with fdData := (events.foldl mark d).fdData } := by
  induction events generalizing d with
  | nil => exact ⟨fun _ => rfl, fun _ _ => rfl, rfl⟩
  | cons e events ih =>
    obtain ⟨quiet, others, rest⟩ := ih (mark d e)
    obtain ⟨quiet₁, others₁, rest₁⟩ := mark_data d e
    rw [List.foldl_cons]
    refine ⟨fun fd => (quiet fd).trans (quiet₁ fd), fun fd away => ?_, ?_⟩
    · simp only [List.map_cons, List.mem_cons, not_or] at away
      rw [others fd away.2, others₁ fd away.1]
    · rw [rest, rest₁]

theorem Accounts.waited {s s' : State κ} {ps : List PollFd} {found : Bool} {timeout : Int} (kept : Accounts s ps)
    (run : epollWait K s timeout = (s', found)) : if found then Walking s' ps else Accounts s' ps := by
  obtain ⟨counted, silent⟩ := kept
  unfold epollWait at run
  generalize K.epollWait s.kern s.data.epfd s.data.evtlistSize timeout = answer at run
  obtain ⟨kern, events⟩ := answer
  obtain ⟨rfl, rfl⟩ := Prod.mk.inj run
  obtain ⟨quiet, others, rest⟩ := marks_data events { s.data with evtlist := events }
  have size : (events.foldl mark { s.data with evtlist := events }).fdDataSize = s.data.fdDataSize := by rw [rest]
  have list : (events.foldl mark { s.data with evtlist := events }).evtlist = events := by rw [rest]
  have still : Counted (events.foldl mark { s.data with evtlist := events }) ps := by
    refine ⟨fun fd => ?_, fun pd member => ?_, ?_⟩
    · rw [quiet]; exact counted.counts fd
    · rw [size]; exact counted.inside pd member
    · rw [size]; exact counted.size
  split
  · refine ⟨still, fun fd fired => ?_⟩
    simp only [list]
    by_contra away
    rw [others fd away] at fired
    exact fired (silent fd)
  · rename_i none
    obtain rfl : events = [] := by simpa using none
    exact ⟨still, silent⟩

theorem settle_cases (s : State κ) (e : Int × BitVec 32) :
    (s.data.mask e.1 ≠ 0 ∧ settle K s e = ⟨s.data.setFd e.1 (s.data.fdData e.1).quiet,
      (K.epollCtl s.kern s.data.epfd .mod e.1 (s.data.mask e.1)).1⟩) ∨
    (s.data.mask e.1 = 0 ∧ settle K s e = ⟨{ s.data.setFd e.1 (s.data.fdData e.1).quiet with
        evtlistCnt := if (K.epollCtl s.kern s.data.epfd .del e.1 0).2 = none then s.data.evtlistCnt - 1
          else s.data.evtlistCnt },
      (K.epollCtl s.kern s.data.epfd .del e.1 0).1⟩) := by
  have mask : FdData.events { s.data.fdData e.1 with revents := 0 } = s.data.mask e.1 := rfl
  simp only [settle, mask, Data.setFd_epfd]
  by_cases left : s.data.mask e.1 = 0
  · refine .inr ⟨left, ?_⟩
    simp only [left, ne_eq, not_true_eq_false, if_false, and_true]
    by_cases ok : (K.epollCtl s.kern s.data.epfd .del e.1 0).2 = none
    · rw [if_pos ok, if_pos ok]; rfl
    · rw [if_neg ok, if_neg ok]; rfl
  · refine .inl ⟨left, ?_⟩
    simp only [left, ne_eq, not_false_eq_true, if_true, reduceCtorEq, and_false, if_false]
    rfl

theorem settle_data (s : State κ) (e : Int × BitVec 32) :
    (∀ fd, (settle K s e).data.fdData fd = if fd = e.1 then (s.data.fdData fd).quiet else s.data.fdData fd) ∧
      (settle K s e).data.fdDataSize = s.data.fdDataSize ∧ (settle K s e).data.evtlist = s.data.evtlist := by
  have one : ∀ fd, (s.data.setFd e.1 (s.data.fdData e.1).quiet).fdData fd =
      if fd = e.1 then (s.data.fdData fd).quiet else s.data.fdData fd := by
    intro fd
    by_cases h : fd = e.1
    · subst h; simp [Data.setFd]
    · simp [Data.setFd, h]
  obtain ⟨-, same⟩ | ⟨-, same⟩ := settle_cases (K := K) s e <;> rw [same] <;> exact ⟨one, rfl, rfl⟩

theorem settles_data (events : List (Int × BitVec 32)) (s : State κ) :
    (∀ fd, ((events.foldl (settle K) s).data.fdData fd) =
      if fd ∈ events.map Prod.fst then (s.data.fdData fd).quiet else s.data.fdData fd) ∧
      (events.foldl (settle K) s).data.fdDataSize = s.data.fdDataSize := by
  induction events generalizing s with
  | nil => exact ⟨fun fd => by simp, rfl⟩
  | cons e events ih =>
    obtain ⟨data, size⟩ := ih (settle K s e)
    obtain ⟨data₁, size₁, -⟩ := settle_data (K := K) s e
    rw [List.foldl_cons]
    refine ⟨fun fd => ?_, size.trans size₁⟩
    rw [data, data₁]
    by_cases here : fd = e.1 <;> by_cases later : fd ∈ events.map Prod.fst <;> simp [here, later, FdData.quiet]

theorem Walking.finished {s : State κ} {ps : List PollFd} (kept : Walking s ps) : Accounts (finish K s) ps := by
  obtain ⟨counted, fired⟩ := kept
  obtain ⟨data, size⟩ := settles_data (K := K) s.data.evtlist s
  unfold finish
  refine ⟨⟨fun fd => ?_, fun pd member => ?_, ?_⟩, fun fd => ?_⟩
  · rw [data, ← counted.counts]
    split <;> rfl
  · rw [size]; exact counted.inside pd member
  · rw [size]; exact counted.size
  · rw [data]
    split
    · rfl
    · rename_i away
      by_contra h
      exact away (fired fd h)

theorem look_ask (d : Data) (pd : PollFd) : (look d pd).ask = pd.ask := by
  unfold look
  split <;> rfl

/-- The steps of a run without fork: dispatch finds its own process. -/
def NoFork (K : Kernel κ ω) (s : System (State κ)) (l : Label ω) : Prop :=
  ∀ now time, l = .idle now time → s.evt.data.pid = K.getpid s.evt.kern

theorem wait_same {s : State κ} {min : Option UTime} {ioq : List (List PollFd)}
    (same : s.data.pid = K.getpid s.kern) : wait K s min ioq = some (epollWait K s (msTimeout min)) := by
  unfold wait
  rw [if_neg (by simp [same])]

theorem eventSys_accounts (K : Kernel κ ω) (created : κ → Int → Prop) :
    Bookkeeping (eventSys K created) (NoFork K) Accounts Walking where
  asks _ _ _ same kept := ⟨kept.1.asks same, kept.2⟩
  walkAsks _ _ _ same kept := ⟨kept.1.asks same, kept.2⟩
  initial evt start := by
    obtain ⟨fdlim, epfd, -, data⟩ := start
    have size : 0 ≤ fdHint fdlim := by
      unfold fdHint
      split <;> omega
    rw [Accounts, data]
    exact ⟨⟨fun fd => rfl, by simp, size⟩, fun fd => rfl⟩
  added _ _ _ _ kept run := (kept.added run).1 rfl
  refused _ _ _ _ _ kept run := (kept.added run).2 (by simp)
  deleted _ _ _ kept := kept.deleted
  waited s now time min ioq evt' found same kept run := by
    rw [show (eventSys K created).wait = wait K from rfl, wait_same (same now time rfl)] at run
    exact kept.waited (Option.some.inj run)
  visited evt pds ps kept := by
    refine ⟨kept, ?_⟩
    simp only [eventSys, visit, List.map_map]
    exact List.map_congr_left fun pd _ => look_ask evt.data pd
  withdrawn _ _ _ kept := kept.withdrawn
  stayed _ _ _ kept := kept
  finished _ _ kept := kept.finished
  fdNew evt evt' ps fd error kept run := by
    obtain ⟨counted, silent⟩ := kept
    simp only [eventSys, fdNew] at run
    split at run
    · simp only [Option.map_eq_some_iff] at run
      obtain ⟨⟨s₁, ok⟩, expanded, same⟩ := run
      cases same
      obtain ⟨grown, -⟩ := fdDataExpand_spec (counted.blank silent) expanded
      refine ⟨counted.grown grown.fdData grown.size, fun fd => ?_⟩
      rw [grown.fdData]
      exact silent fd
    · cases run; exact ⟨counted, silent⟩
  outside _ _ _ kept := kept

end StateThreads.Epoll
