import StateThreads.Event.Mirror

/-! _st_epoll_pollset_add when epoll_ctl fails. The loop breaks off with the failing entry
counted, and the roll-back runs through masks the set never had. -/
namespace StateThreads.Epoll
open PartialMap

variable {κ ω : Type}

/-- What is relied on of epoll_ctl, where reg says what is registered in a set: a call that
fails changes nothing, ADD fails with EEXIST for a registered descriptor only, MOD and DEL
fail for one that is not. In a steady kernel MOD and DEL fail for no other reason. -/
structure CtlSet (K : Kernel κ ω) (reg : κ → Int → Int → Option (BitVec 32)) (steady : κ → Prop) : Prop where
  done : ∀ k epfd op fd events, (K.epollCtl k epfd op fd events).2 = none →
    reg (K.epollCtl k epfd op fd events).1 epfd =
      Function.update (reg k epfd) fd (if op = .del then none else some events)
  failed : ∀ k epfd op fd events, (K.epollCtl k epfd op fd events).2 ≠ none →
    reg (K.epollCtl k epfd op fd events).1 epfd = reg k epfd
  exists_ : ∀ k epfd fd events, (K.epollCtl k epfd .add fd events).2 = some .eexist → reg k epfd fd ≠ none
  absent : ∀ k epfd op fd events, op ≠ .add → reg k epfd fd = none → (K.epollCtl k epfd op fd events).2 ≠ none
  realloc : ∀ k n, reg (K.realloc k n).1 = reg k
  there : ∀ k epfd op fd events, steady k → op ≠ .add → reg k epfd fd ≠ none →
    (K.epollCtl k epfd op fd events).2 = none
  steady : ∀ k epfd op fd events, steady k → op ≠ .add → steady (K.epollCtl k epfd op fd events).1

def FdData.Nonneg (x : FdData) : Prop := 0 ≤ x.rdRefCnt ∧ 0 ≤ x.wrRefCnt ∧ 0 ≤ x.exRefCnt

theorem FdData.Nonneg.more {x : FdData} (nonneg : x.Nonneg) (ps : List PollFd) (fd : Int) : (x.more ps fd).Nonneg := by
  obtain ⟨rd, wr, ex⟩ := nonneg
  have rd' := tally_nonneg PollFd.reads ps fd
  have wr' := tally_nonneg PollFd.writes ps fd
  have ex' := tally_nonneg PollFd.excepts ps fd
  simp only [Nonneg, FdData.more]
  omega

theorem FdData.Nonneg.named {x : FdData} (nonneg : x.Nonneg) {ps : List PollFd} {pd : PollFd} (member : pd ∈ ps)
    (valid : Valid pd) : (x.more ps pd.fd).events ≠ 0 := by
  obtain ⟨rd, wr, ex⟩ := nonneg
  rw [ne_eq, FdData.events_eq_zero]
  rintro ⟨noRd, noWr, noEx⟩
  simp only [FdData.more] at noRd noWr noEx
  have rd' := tally_nonneg PollFd.reads ps pd.fd
  have wr' := tally_nonneg PollFd.writes ps pd.fd
  have ex' := tally_nonneg PollFd.excepts ps pd.fd
  obtain reads | writes | excepts := valid.counted
  · exact absurd (tally_pos_iff.mpr ⟨pd, member, rfl, reads⟩) (by omega)
  · exact absurd (tally_pos_iff.mpr ⟨pd, member, rfl, writes⟩) (by omega)
  · exact absurd (tally_pos_iff.mpr ⟨pd, member, rfl, excepts⟩) (by omega)

theorem FdData.events_eq_iff (x y : FdData) : x.events = y.events ↔
    (x.rdRefCnt = 0 ↔ y.rdRefCnt = 0) ∧ (x.wrRefCnt = 0 ↔ y.wrRefCnt = 0) ∧ (x.exRefCnt = 0 ↔ y.exRefCnt = 0) := by
  unfold FdData.events
  by_cases xr : x.rdRefCnt = 0 <;> by_cases xw : x.wrRefCnt = 0 <;> by_cases xe : x.exRefCnt = 0 <;>
    by_cases yr : y.rdRefCnt = 0 <;> by_cases yw : y.wrRefCnt = 0 <;> by_cases ye : y.exRefCnt = 0 <;>
    simp [xr, xw, xe, yr, yw, ye, epollIn, epollOut, epollPri]

theorem FdData.Nonneg.between {x : FdData} (nonneg : x.Nonneg) {ps qs : List PollFd} {fd : Int}
    (same : (x.more (ps ++ qs) fd).events = x.events) : (x.more ps fd).events = x.events := by
  obtain ⟨rd, wr, ex⟩ := nonneg
  have rd₁ := tally_nonneg PollFd.reads ps fd
  have wr₁ := tally_nonneg PollFd.writes ps fd
  have ex₁ := tally_nonneg PollFd.excepts ps fd
  have rd₂ := tally_nonneg PollFd.reads qs fd
  have wr₂ := tally_nonneg PollFd.writes qs fd
  have ex₂ := tally_nonneg PollFd.excepts qs fd
  rw [FdData.events_eq_iff] at same ⊢
  simp only [FdData.more, tally_append] at same ⊢
  omega

variable {K : Kernel κ ω} {reg : κ → Int → Int → Option (BitVec 32)} {steady : κ → Prop}

def Follows (reg : κ → Int → Int → Option (BitVec 32)) (s : State κ) : Prop :=
  ∀ fd, reg s.kern s.data.epfd fd = wanted (s.data.mask fd)

/-- evtlist_cnt has moved by the number of descriptors that entered the set, less that of
those that left it, since the set was R and evtlist_cnt was c. -/
def Balanced (reg : κ → Int → Int → Option (BitVec 32)) (R : Int → Option (BitVec 32)) (c : Int) (s : State κ) : Prop :=
  Gained R (reg s.kern s.data.epfd) (s.data.evtlistCnt - c)

variable {R : Int → Option (BitVec 32)} {c : Int}

theorem Balanced.update {s s' : State κ} {fd : Int} {v : Option (BitVec 32)} (balanced : Balanced reg R c s)
    (epfd : s'.data.epfd = s.data.epfd)
    (table : reg s'.kern s.data.epfd = Function.update (reg s.kern s.data.epfd) fd v)
    (count : s'.data.evtlistCnt = s.data.evtlistCnt + held v - held (reg s.kern s.data.epfd fd)) :
    Balanced reg R c s' := by
  have next := Gained.update balanced fd v
  rw [← table, ← epfd] at next
  rw [Balanced]
  convert next using 1
  rw [count, epfd]
  omega

theorem Balanced.same {s s' : State κ} (balanced : Balanced reg R c s) (epfd : s'.data.epfd = s.data.epfd)
    (table : reg s'.kern s.data.epfd = reg s.kern s.data.epfd) (count : s'.data.evtlistCnt = s.data.evtlistCnt) :
    Balanced reg R c s' := by
  rw [Balanced, epfd, table, count]
  exact balanced

section
variable (sem : CtlSet K reg steady)
include sem

theorem CtlSet.told (k : κ) (epfd : Int) (op : CtlOp) (kind : op ≠ .add) (fd : Int) (events : BitVec 32) :
    ((K.epollCtl k epfd op fd events).2 = none ∧ reg k epfd fd ≠ none ∧
      reg (K.epollCtl k epfd op fd events).1 epfd =
        Function.update (reg k epfd) fd (if op = .del then none else some events)) ∨
    ((K.epollCtl k epfd op fd events).2 ≠ none ∧ reg (K.epollCtl k epfd op fd events).1 epfd = reg k epfd) := by
  by_cases ok : (K.epollCtl k epfd op fd events).2 = none
  · exact .inl ⟨ok, fun gone => sem.absent k epfd op fd events kind gone ok, sem.done k epfd op fd events ok⟩
  · exact .inr ⟨ok, sem.failed k epfd op fd events ok⟩

theorem Balanced.delOne {s : State κ} (balanced : Balanced reg R c s) (pd : PollFd) :
    Balanced reg R c (delOne K s pd) := by
  obtain ⟨-, same⟩ | ⟨-, -, -, same⟩ | ⟨-, -, -, same⟩ := delOne_cases (K := K) s pd
  · rw [same]
    exact balanced.same rfl rfl rfl
  · rw [same]
    obtain ⟨-, there, table⟩ | ⟨-, table⟩ := sem.told s.kern s.data.epfd .mod (by simp) pd.fd
      ((s.data.moved pd (-1)).mask pd.fd)
    · refine balanced.update rfl table ?_
      simp [held, there, Data.moved, Data.setFd]
    · exact balanced.same rfl table rfl
  · rw [same]
    obtain ⟨ok, there, table⟩ | ⟨failed, table⟩ := sem.told s.kern s.data.epfd .del (by simp) pd.fd 0
    · refine balanced.update rfl table ?_
      rw [if_pos ok]
      simp [held, there]
    · refine balanced.same rfl table ?_
      rw [if_neg failed]

theorem Balanced.pollsetDel {s : State κ} (balanced : Balanced reg R c s) (pds : List PollFd) :
    Balanced reg R c (pollsetDel K s pds) := by
  unfold Epoll.pollsetDel
  induction pds generalizing s with
  | nil => exact balanced
  | cons pd pds ih => exact ih (balanced.delOne sem pd)

theorem CtlSet.delOne {s : State κ} (pd : PollFd) (calm : steady s.kern)
    (silent : (s.data.fdData pd.fd).revents = 0) :
    steady (delOne K s pd).kern ∧ reg (delOne K s pd).kern s.data.epfd =
      if (delOne K s pd).data.mask pd.fd = s.data.mask pd.fd ∨ reg s.kern s.data.epfd pd.fd = none then
        reg s.kern s.data.epfd
      else Function.update (reg s.kern s.data.epfd) pd.fd (wanted ((delOne K s pd).data.mask pd.fd)) := by
  have mask : (Epoll.delOne K s pd).data.mask pd.fd = (s.data.moved pd (-1)).mask pd.fd := by
    have moved : (s.data.moved pd (-1)).fdData pd.fd = _ := (count_one s.data pd pd.fd).2
    rw [Data.mask, Data.mask, (delOne_data s pd).1, moved]
  rw [mask]
  obtain ⟨quiet, same⟩ | ⟨changed, -, left, same⟩ | ⟨changed, -, left, same⟩ := delOne_cases (K := K) s pd
  · rw [same]
    refine ⟨calm, ?_⟩
    rw [if_pos (.inl (quiet.resolve_right (not_not.mpr silent)))]
  · rw [same]
    refine ⟨sem.steady _ _ _ _ _ calm (by simp), ?_⟩
    by_cases gone : reg s.kern s.data.epfd pd.fd = none
    · rw [if_pos (.inr gone)]
      exact sem.failed _ _ _ _ _ (sem.absent _ _ _ _ _ (by simp) gone)
    · rw [if_neg (not_or.mpr ⟨changed, gone⟩), wanted_ne_zero left]
      exact sem.done _ _ _ _ _ (sem.there _ _ _ _ _ calm (by simp) gone)
  · rw [same]
    refine ⟨sem.steady _ _ _ _ _ calm (by simp), ?_⟩
    by_cases gone : reg s.kern s.data.epfd pd.fd = none
    · rw [if_pos (Or.inr gone)]
      exact sem.failed _ _ _ _ _ (sem.absent _ _ .del _ _ (by simp) gone)
    · rw [if_neg (not_or.mpr ⟨changed, gone⟩), left, wanted_zero]
      exact sem.done _ _ _ _ _ (sem.there _ _ _ _ _ calm (by simp) gone)

theorem Follows.addOne {s s' : State κ} {pd : PollFd} (follows : Follows reg s) (balanced : Balanced reg R c s)
    (named : (s.data.moved pd 1).mask pd.fd ≠ 0) (run : addOne K s pd = some (s', none)) :
    Follows reg s' ∧ Balanced reg R c s' := by
  have others := fun x (h : x ≠ pd.fd) => s.data.moved_other pd 1 h
  obtain ⟨same, -, rfl⟩ | ⟨-, op, which, told⟩ := addOne_cases run
  · refine ⟨fun fd => ?_, balanced.same rfl rfl rfl⟩
    refine (follows fd).trans (congrArg wanted ?_)
    by_cases h : fd = pd.fd
    · rw [h, same]
    · rw [Data.mask, Data.mask, others fd h]
  · obtain ⟨failed, answered, -⟩ | ⟨answer, -, size, data, kern⟩ := told
    · exact absurd answered.symm failed
    · have before := follows pd.fd
      have ok : (K.epollCtl s.kern s.data.epfd op pd.fd ((s.data.moved pd 1).mask pd.fd)).2 = none := by
        obtain ok | ⟨rfl, known⟩ := answer
        · exact ok
        · have empty : s.data.mask pd.fd = 0 := by
            by_contra some_
            rw [if_pos some_] at which
            cases which
          rw [empty, wanted_zero] at before
          exact absurd before (sem.exists_ _ _ _ _ known)
      have kind : op ≠ .del := by rw [which]; split <;> simp
      have table := sem.done _ _ _ _ _ ok
      rw [if_neg kind] at table
      have table' : reg s'.kern s.data.epfd =
          Function.update (reg s.kern s.data.epfd) pd.fd (some ((s.data.moved pd 1).mask pd.fd)) := by
        obtain same | ⟨n, same⟩ := kern
        · rw [same, table]
        · rw [same, sem.realloc, table]
      have epfd : s'.data.epfd = s.data.epfd := by rw [data]; rfl
      have table₀ : s'.data.fdData = (s.data.moved pd 1).fdData := by rw [data]
      refine ⟨fun fd => ?_, ?_⟩
      · have mask : s'.data.mask fd = (s.data.moved pd 1).mask fd := by rw [Data.mask, table₀]; rfl
        rw [epfd, table', mask]
        by_cases h : fd = pd.fd
        · subst h
          rw [Function.update_self, wanted_ne_zero named]
        · rw [Function.update_of_ne h, Data.mask, others fd h]
          exact follows fd
      · refine balanced.update epfd table' ?_
        rw [data, before]
        dsimp only
        by_cases empty : s.data.mask pd.fd = 0
        · rw [which, if_neg (not_not.mpr empty), empty, wanted_zero]
          simp [held]
        · rw [which, if_pos empty, wanted_ne_zero empty]
          simp [held]

theorem Follows.addLoop {pds : List PollFd} {i : Nat} {s s' : State κ} (follows : Follows reg s)
    (balanced : Balanced reg R c s) (nonneg : ∀ fd, (s.data.fdData fd).Nonneg) (valid : ∀ pd ∈ pds, Valid pd)
    (run : addLoop K pds i s = some (s', none)) : Follows reg s' ∧ Balanced reg R c s' := by
  induction pds generalizing i s with
  | nil =>
    cases run
    exact ⟨follows, balanced⟩
  | cons pd pds ih =>
    simp only [Epoll.addLoop, Option.bind_eq_bind, Option.bind_eq_some_iff] at run
    obtain ⟨⟨s₁, error⟩, one, run⟩ := run
    cases error with
    | some e => cases run
    | none =>
      obtain ⟨counts, -, -⟩ := addOne_data one
      have named : (s.data.moved pd 1).mask pd.fd ≠ 0 := by
        have more : (s.data.moved pd 1).fdData pd.fd = _ := (count_one s.data pd pd.fd).1
        rw [Data.mask, more]
        exact (nonneg pd.fd).named (List.mem_singleton_self pd) (valid pd (List.mem_cons_self ..))
      obtain ⟨follows₁, balanced₁⟩ := follows.addOne sem balanced named one
      refine ih follows₁ balanced₁ (fun fd => ?_) (fun p member => valid p (List.mem_cons_of_mem _ member)) run
      rw [counts]
      exact (nonneg fd).more [pd] fd

end

/- The roll-back. The counts end as x, and rest are the entries still to be taken back. -/

section
variable {x : Int → FdData} {rest : List PollFd} {s : State κ} {f : Int} {M : BitVec 32}

/-- The set follows the masks, except that of f as long as it is M. -/
def Torn (reg : κ → Int → Int → Option (BitVec 32)) (f : Int) (M : BitVec 32) (s : State κ) : Prop :=
  ∀ fd, (fd = f → s.data.mask fd ≠ M) → reg s.kern s.data.epfd fd = wanted (s.data.mask fd)

/-- What the set holds of f meanwhile: something, or nothing if a single entry is left and
the mask is empty without it. -/
def Lagging (reg : κ → Int → Int → Option (BitVec 32)) (f : Int) (M : BitVec 32) (x : Int → FdData)
    (rest : List PollFd) (s : State κ) : Prop :=
  s.data.mask f = M → reg s.kern s.data.epfd f ≠ none ∨ (x f).events = 0 ∧ (rest.countP fun pd => pd.fd = f) ≤ 1

theorem more_unnamed (x : FdData) {ps : List PollFd} {fd : Int} (unnamed : (ps.countP fun pd => pd.fd = fd) = 0) :
    x.more ps fd = x := by
  have none : ∀ pd ∈ ps, pd.fd ≠ fd := by simpa [List.countP_eq_zero] using unnamed
  simp [FdData.more, tally_unnamed none]

theorem less_head {y : FdData} {pd : PollFd} {fd : Int} (counts : y = (x fd).more (pd :: rest) fd) :
    y.less [pd] fd = (x fd).more rest fd := by
  rw [counts, ← List.singleton_append]
  simp only [FdData.more, FdData.less, tally_append, FdData.mk.injEq, and_true]
  omega

theorem Torn.delOne (sem : CtlSet K reg steady) {pd : PollFd} (torn : Torn reg f M s)
    (lagging : Lagging reg f M x (pd :: rest) s) (some_ : M ≠ 0) (calm : steady s.kern)
    (silent : (s.data.fdData pd.fd).revents = 0) (named : s.data.mask pd.fd ≠ 0)
    (counts : ∀ fd, s.data.fdData fd = (x fd).more (pd :: rest) fd) :
    Torn reg f M (delOne K s pd) ∧ Lagging reg f M x rest (delOne K s pd) := by
  obtain ⟨-, table⟩ := sem.delOne pd calm silent
  obtain ⟨less, -, frame⟩ := delOne_data (K := K) s pd
  have others : ∀ fd, fd ≠ pd.fd → reg (Epoll.delOne K s pd).kern s.data.epfd fd = reg s.kern s.data.epfd fd ∧
      (Epoll.delOne K s pd).data.mask fd = s.data.mask fd := by
    intro fd other
    have away : ([pd].countP fun p => p.fd = fd) = 0 := by simp [Ne.symm other]
    have same : (s.data.fdData fd).less [pd] fd = s.data.fdData fd := by
      have back := (s.data.fdData fd).more_less [pd] fd
      rwa [more_unnamed _ away] at back
    have mask : (Epoll.delOne K s pd).data.mask fd = s.data.mask fd := by
      rw [Data.mask, less, same]
      rfl
    rw [table]
    split
    · exact ⟨rfl, mask⟩
    · exact ⟨Function.update_of_ne other _ _, mask⟩
  have fewer : (rest.countP fun p => p.fd = f) ≤ (pd :: rest).countP fun p => p.fd = f :=
    (List.sublist_cons_self pd rest).countP_le
  unfold Torn Lagging
  rw [frame.epfd]
  by_cases same : (Epoll.delOne K s pd).data.mask pd.fd = s.data.mask pd.fd
  · -- nothing is told to the kernel, and no mask changes
    rw [if_pos (.inl same)] at table
    have masks : ∀ fd, (Epoll.delOne K s pd).data.mask fd = s.data.mask fd := by
      intro fd
      by_cases h : fd = pd.fd
      · rw [h, same]
      · exact (others fd h).2
    refine ⟨fun fd lags => ?_, fun lags => ?_⟩
    · rw [masks] at lags ⊢
      rw [table]
      exact torn fd lags
    · rw [masks] at lags
      rw [table]
      exact (lagging lags).imp id fun sole => ⟨sole.1, fewer.trans sole.2⟩
  by_cases gone : reg s.kern s.data.epfd pd.fd = none
  · -- the descriptor that was refused, at its only entry
    rw [if_pos (.inr gone)] at table
    have lags : pd.fd = f ∧ s.data.mask f = M := by
      by_contra follows
      have told := torn pd.fd fun h mask => follows ⟨h, h ▸ mask⟩
      rw [gone, wanted_ne_zero named] at told
      cases told
    obtain ⟨rfl, lags⟩ := lags
    have empty : (Epoll.delOne K s pd).data.mask pd.fd = 0 := by
      obtain there | ⟨empty, sole⟩ := lagging lags
      · exact absurd gone there
      · rw [Data.mask, less, less_head (counts pd.fd), more_unnamed, empty]
        rw [List.countP_cons_of_pos (by simp)] at sole
        omega
    refine ⟨fun fd _ => ?_, fun lags' => absurd (lags'.symm.trans empty) some_⟩
    rw [table]
    by_cases h : fd = pd.fd
    · rw [h, gone, empty, wanted_zero]
    · rw [(others fd h).2]
      exact torn fd fun h' => absurd h' h
  · rw [if_neg (not_or.mpr ⟨same, gone⟩)] at table
    refine ⟨fun fd lags => ?_, fun lags => ?_⟩
    · by_cases h : fd = pd.fd
      · rw [table, h, Function.update_self]
      · rw [(others fd h).2] at lags ⊢
        rw [(others fd h).1]
        exact torn fd lags
    · by_cases h : f = pd.fd
      · left
        rw [table, h, Function.update_self, ← h, lags, wanted_ne_zero some_]
        simp
      · rw [(others f h).2] at lags
        rw [(others f h).1]
        exact (lagging lags).imp id fun sole => ⟨sole.1, fewer.trans sole.2⟩

theorem Torn.pollsetDel (sem : CtlSet K reg steady) (torn : Torn reg f M s) (lagging : Lagging reg f M x rest s)
    (some_ : M ≠ 0) (calm : steady s.kern) (nonneg : ∀ fd, (x fd).Nonneg) (silent : ∀ fd, (x fd).revents = 0)
    (valid : ∀ pd ∈ rest, Valid pd) (counts : ∀ fd, s.data.fdData fd = (x fd).more rest fd) :
    Torn reg f M (pollsetDel K s rest) := by
  unfold Epoll.pollsetDel
  induction rest generalizing s with
  | nil => exact torn
  | cons pd rest ih =>
    have quiet : (s.data.fdData pd.fd).revents = 0 := by
      rw [counts]
      exact silent pd.fd
    have named : s.data.mask pd.fd ≠ 0 := by
      rw [Data.mask, counts]
      exact (nonneg pd.fd).named (List.mem_cons_self ..) (valid pd (List.mem_cons_self ..))
    obtain ⟨torn₁, lagging₁⟩ := torn.delOne sem lagging some_ calm quiet named counts
    refine ih torn₁ lagging₁ (sem.delOne pd calm quiet).1 (fun p member => valid p (List.mem_cons_of_mem _ member)) fun fd => ?_
    rw [(delOne_data s pd).1, less_head (counts fd)]

end

theorem addLoop_break {pds : List PollFd} {i n : Nat} {s s' : State κ} {e : AddError}
    (run : addLoop K pds i s = some (s', some (e, n))) :
    ∃ before pd after s₁, pds = before ++ pd :: after ∧ n = i + before.length ∧
      addLoop K before i s = some (s₁, none) ∧ addOne K s₁ pd = some (s', some e) := by
  induction pds generalizing i s with
  | nil => cases run
  | cons pd pds ih =>
    simp only [addLoop, Option.bind_eq_bind, Option.bind_eq_some_iff] at run
    obtain ⟨⟨s₁, error⟩, one, run⟩ := run
    cases error with
    | some e =>
      cases run
      exact ⟨[], pd, pds, s, rfl, rfl, rfl, one⟩
    | none =>
      obtain ⟨before, p, after, s₂, split, index, reached, broke⟩ := ih run
      refine ⟨pd :: before, p, after, s₂, by rw [split]; rfl, ?_, ?_, broke⟩
      · rw [index, List.length_cons]
        omega
      · rw [addLoop, one]
        exact reached

theorem checkLoop_break {pds : List PollFd} {s s' : State κ} {e : AddError}
    (run : checkLoop K pds s = some (s', some e)) :
    ∃ before pd after s₁, pds = before ++ pd :: after ∧ checkLoop K before s = some (s₁, none) ∧
      (¬ Valid pd ∧ e = .einval ∨
        Valid pd ∧ s₁.data.fdDataSize ≤ pd.fd ∧ fdDataExpand K s₁ pd.fd = some (s', false) ∧ e = .enomem) := by
  induction pds generalizing s with
  | nil => cases run
  | cons pd pds ih =>
    rw [checkLoop] at run
    split at run
    · rename_i wrong
      cases run
      refine ⟨[], pd, pds, _, rfl, rfl, .inl ⟨fun valid => ?_, rfl⟩⟩
      obtain low | zero | unknown := wrong
      · exact absurd valid.fd (by omega)
      · exact valid.some_ zero
      · exact unknown valid.known
    · rename_i right
      have valid : Valid pd := by
        simp only [not_or, Int.not_lt, ne_eq, not_not] at right
        exact ⟨right.1, right.2.1, right.2.2⟩
      split at run
      · rename_i outside
        simp only [Option.bind_eq_bind, Option.bind_eq_some_iff] at run
        obtain ⟨⟨s₁, ok⟩, grown, run⟩ := run
        cases ok with
        | false =>
          cases run
          exact ⟨[], pd, pds, s, rfl, rfl, .inr ⟨valid, outside, grown, rfl⟩⟩
        | true =>
          obtain ⟨before, p, after, s₂, split, reached, broke⟩ := ih run
          refine ⟨pd :: before, p, after, s₂, by rw [split]; rfl, ?_, broke⟩
          rw [checkLoop, if_neg right, if_pos outside, grown]
          exact reached
      · rename_i inside
        obtain ⟨before, p, after, s₂, split, reached, broke⟩ := ih run
        refine ⟨pd :: before, p, after, s₂, by rw [split]; rfl, ?_, broke⟩
        rw [checkLoop, if_neg right, if_neg inside]
        exact reached

/- The parts of the data that no loop touches. -/

theorem delOne_rest (s : State κ) (pd : PollFd) : (delOne K s pd).data =
    { s.data with fdData := (delOne K s pd).data.fdData, evtlistCnt := (delOne K s pd).data.evtlistCnt } := by
  obtain ⟨-, same⟩ | ⟨-, -, -, same⟩ | ⟨-, -, -, same⟩ := delOne_cases (K := K) s pd <;>
  · rw [same]
    rfl

theorem pollsetDel_rest (s : State κ) (pds : List PollFd) : (pollsetDel K s pds).data =
    { s.data with fdData := (pollsetDel K s pds).data.fdData, evtlistCnt := (pollsetDel K s pds).data.evtlistCnt } := by
  unfold pollsetDel
  induction pds generalizing s with
  | nil => rfl
  | cons pd pds ih =>
    rw [List.foldl_cons, ih, delOne_rest]

theorem addOne_rest {s s' : State κ} {pd : PollFd} {error : Option AddError} (run : addOne K s pd = some (s', error)) :
    s'.data = { s.data with
      fdData := s'.data.fdData, evtlistSize := s'.data.evtlistSize, evtlistCnt := s'.data.evtlistCnt } := by
  obtain ⟨-, -, rfl⟩ | ⟨-, op, -, ⟨-, -, -, rfl⟩ | ⟨-, -, size, data, -⟩⟩ := addOne_cases run
  · rfl
  · rfl
  · rw [data]
    rfl

theorem addLoop_rest {pds : List PollFd} {i : Nat} {s s' : State κ} {stop : Option (AddError × Nat)}
    (run : addLoop K pds i s = some (s', stop)) : s'.data = { s.data with
      fdData := s'.data.fdData, evtlistSize := s'.data.evtlistSize, evtlistCnt := s'.data.evtlistCnt } := by
  induction pds generalizing i s with
  | nil =>
    cases run
    rfl
  | cons pd pds ih =>
    simp only [addLoop, Option.bind_eq_bind, Option.bind_eq_some_iff] at run
    obtain ⟨⟨s₁, error⟩, one, run⟩ := run
    have first := addOne_rest one
    cases error with
    | some e =>
      cases run
      exact first
    | none =>
      have later := ih run
      rw [first] at later
      exact later

structure Mirrored (reg : κ → Int → Int → Option (BitVec 32)) (s : State κ) : Prop where
  blank : s.data.Blank
  nonneg : ∀ fd, (s.data.fdData fd).Nonneg
  silent : ∀ fd, (s.data.fdData fd).revents = 0
  follows : Follows reg s

theorem Mirrored.balanced (s : State κ) : Balanced reg (reg s.kern s.data.epfd) s.data.evtlistCnt s := by
  rw [Balanced, sub_self]
  exact .refl _

theorem Mirrored.grown (sem : CtlSet K reg steady) {s s' : State κ} (mirrored : Mirrored reg s) (grown : Grown K s s') :
    Mirrored reg s' ∧ s'.data.epfd = s.data.epfd ∧ s'.data.evtlistCnt = s.data.evtlistCnt ∧ reg s'.kern = reg s.kern := by
  have table : reg s'.kern = reg s.kern := grown.kern (fun k => reg k = reg s.kern)
    (fun k n same => (sem.realloc k n).trans same) rfl
  have epfd : s'.data.epfd = s.data.epfd := by rw [grown.rest]
  have count : s'.data.evtlistCnt = s.data.evtlistCnt := by rw [grown.rest]
  refine ⟨⟨grown.blank mirrored.blank, ?_, ?_, fun fd => ?_⟩, epfd, count, table⟩
  · rw [grown.fdData]
    exact mirrored.nonneg
  · rw [grown.fdData]
    exact mirrored.silent
  · rw [table, epfd, Data.mask, grown.fdData]
    exact mirrored.follows fd

theorem CtlSet.refused (sem : CtlSet K reg steady) {s s' : State κ} {pd : PollFd} {e : AddError}
    (run : addOne K s pd = some (s', some e)) :
    s'.data = s.data.moved pd 1 ∧ s'.data.mask pd.fd ≠ s.data.mask pd.fd ∧
      reg s'.kern s.data.epfd = reg s.kern s.data.epfd ∧
      (K.epollCtl s.kern s.data.epfd (if s.data.mask pd.fd ≠ 0 then .mod else .add) pd.fd (s'.data.mask pd.fd)).2 =
        some e := by
  obtain ⟨-, never, -⟩ | ⟨changed, op, rfl, told⟩ := addOne_cases run
  · cases never
  · obtain ⟨failed, answered, -, rfl⟩ | ⟨-, never, -⟩ := told
    · exact ⟨rfl, changed, sem.failed _ _ _ _ _ failed, answered.symm⟩
    · cases never

section
variable {s s₂ s₃ : State κ} {before : List PollFd} {pd : PollFd}

theorem Follows.torn (follows : Follows reg s₂) (data : s₃.data = s₂.data.moved pd 1)
    (table : reg s₃.kern s₂.data.epfd = reg s₂.kern s₂.data.epfd) : Torn reg pd.fd (s₃.data.mask pd.fd) s₃ := by
  intro fd lags
  have other : fd ≠ pd.fd := by
    rintro rfl
    exact lags rfl rfl
  have mask : s₃.data.mask fd = s₂.data.mask fd := by
    rw [data, Data.mask, Data.moved_other _ _ _ other]
    rfl
  have epfd : s₃.data.epfd = s₂.data.epfd := by rw [data]; rfl
  rw [epfd, table, mask]
  exact follows fd

/-- A descriptor that is not in the set when the loop breaks off at it has not been named
before. -/
theorem Follows.lagging (follows : Follows reg s₂) (data : s₃.data = s₂.data.moved pd 1)
    (table : reg s₃.kern s₂.data.epfd = reg s₂.kern s₂.data.epfd) {x : Int → FdData} (nonneg : ∀ fd, (x fd).Nonneg)
    (valid : ∀ p ∈ before, Valid p) (counts : ∀ fd, s₂.data.fdData fd = (x fd).more before fd) :
    Lagging reg pd.fd (s₃.data.mask pd.fd) x (before ++ [pd]) s₃ := by
  intro _
  have epfd : s₃.data.epfd = s₂.data.epfd := by rw [data]; rfl
  rw [epfd, table, follows pd.fd]
  by_cases empty : s₂.data.mask pd.fd = 0
  · right
    rw [Data.mask, counts] at empty
    have unnamed : ∀ p ∈ before, p.fd ≠ pd.fd := by
      intro p member same
      rw [← same] at empty
      exact (nonneg p.fd).named member (valid p member) empty
    have none : (before.countP fun p => p.fd = pd.fd) = 0 := by simpa [List.countP_eq_zero] using unnamed
    rw [more_unnamed _ none] at empty
    refine ⟨empty, ?_⟩
    rw [List.countP_append, none]
    simp
  · left
    rw [wanted_ne_zero empty]
    simp

/-- The roll-back from an entry that epoll_ctl refused ends where the loop began. -/
theorem Mirrored.rollback (sem : CtlSet K reg steady) (mirrored : Mirrored reg s) (valid : ∀ p ∈ before ++ [pd], Valid p)
    (reached : addLoop K before 0 s = some (s₂, none)) {e : AddError} (broke : addOne K s₂ pd = some (s₃, some e))
    (calm : steady s₃.kern) :
    reg (pollsetDel K s₃ (before ++ [pd])).kern s.data.epfd = reg s.kern s.data.epfd ∧
      (pollsetDel K s₃ (before ++ [pd])).data.evtlistCnt = s.data.evtlistCnt := by
  have valid' : ∀ p ∈ before, Valid p := fun p member => valid p (List.mem_append_left _ member)
  obtain ⟨follows, balanced⟩ := mirrored.follows.addLoop sem (Mirrored.balanced s) mirrored.nonneg valid' reached
  have counts₂ : ∀ fd, s₂.data.fdData fd = (s.data.fdData fd).more before fd := by
    obtain ⟨n, ⟨-, all⟩ | ⟨e, j, never, -⟩, counts, -⟩ := addLoop_data reached
    · rw [all] at counts
      exact counts
    · cases never
  have counts₃ : ∀ fd, s₃.data.fdData fd = (s.data.fdData fd).more (before ++ [pd]) fd := by
    intro fd
    rw [(addOne_data broke).1, counts₂, ← FdData.more_append]
  obtain ⟨data, changed, table, -⟩ := sem.refused broke
  have mask : s₃.data.mask pd.fd = ((s.data.fdData pd.fd).more (before ++ [pd]) pd.fd).events := by rw [Data.mask, counts₃]
  have named : s₃.data.mask pd.fd ≠ 0 := by
    rw [mask]
    exact (mirrored.nonneg pd.fd).named (by simp) (valid pd (by simp))
  have back := (follows.torn data table).pollsetDel sem (follows.lagging data table mirrored.nonneg valid' counts₂) named calm
    mirrored.nonneg mirrored.silent valid counts₃
  have masks : ∀ fd, (pollsetDel K s₃ (before ++ [pd])).data.mask fd = s.data.mask fd := by
    intro fd
    rw [Data.mask, (pollsetDel_data _ _).1, counts₃, FdData.more_less]
    rfl
  have epfd : (pollsetDel K s₃ (before ++ [pd])).data.epfd = s.data.epfd := by
    rw [pollsetDel_rest, addOne_rest broke, addLoop_rest reached]
  have whole : reg (pollsetDel K s₃ (before ++ [pd])).kern s.data.epfd = reg s.kern s.data.epfd := by
    funext fd
    have lag : fd = pd.fd → s.data.mask fd ≠ s₃.data.mask pd.fd := by
      -- with the mask that the loop began with, no entry would have changed it
      rintro rfl same
      have between := (mirrored.nonneg pd.fd).between (mask.symm.trans same.symm)
      apply changed
      rw [← same, Data.mask, Data.mask, counts₂, between]
    have final := back fd (by rw [masks]; exact lag)
    rwa [masks, ← mirrored.follows fd, epfd] at final
  refine ⟨whole, ?_⟩
  have epfd₃ : s₃.data.epfd = s₂.data.epfd := by rw [data]; rfl
  have count₃ : s₃.data.evtlistCnt = s₂.data.evtlistCnt := by rw [data]; rfl
  have gained := (balanced.same epfd₃ table count₃).pollsetDel sem (before ++ [pd])
  rw [Balanced, epfd, whole] at gained
  have zero := gained.unchanged
  omega

end

end StateThreads.Epoll
