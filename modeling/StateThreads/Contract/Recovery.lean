import StateThreads.Contract.Interest
import StateThreads.Event.Atomic
import StateThreads.Event.Fork

/-! What is left of an epoll_ctl that fails: in st_poll, and in the first dispatch after a
fork. -/
namespace StateThreads.Epoll
open LabelledRun PartialMap

variable {κ ω : Type}

inductive FailedStep (K : Kernel κ ω) (s : State κ) (pds : List PollFd) : AddError → Prop
  | invalid {before after : List PollFd} {pd : PollFd} {s₁ : State κ} :
    pds = before ++ pd :: after → checkLoop K before s = some (s₁, none) → ¬ Valid pd → FailedStep K s pds .einval
  | memory {before after : List PollFd} {pd : PollFd} {s₁ s₂ : State κ} :
    pds = before ++ pd :: after → checkLoop K before s = some (s₁, none) → s₁.data.fdDataSize ≤ pd.fd →
    fdDataExpand K s₁ pd.fd = some (s₂, false) → FailedStep K s pds .enomem
  | refused {before after : List PollFd} {pd : PollFd} {s₁ s₂ : State κ} {e : AddError} :
    pds = before ++ pd :: after → checkLoop K pds s = some (s₁, none) → addLoop K before 0 s₁ = some (s₂, none) →
    (K.epollCtl s₂.kern s₂.data.epfd (if s₂.data.mask pd.fd ≠ 0 then .mod else .add) pd.fd
      ((s₂.data.moved pd 1).mask pd.fd)).2 = some e → FailedStep K s pds e

structure AllOrNothing (K : Kernel κ ω) (reg : κ → Int → Int → Option (BitVec 32)) (s : State κ) (pds : List PollFd)
    (s' : State κ) (error : Option AddError) : Prop where
  refused : ∀ e, error = some e → s'.data = { s.data with
      fdDataSize := s'.data.fdDataSize, evtlistSize := s'.data.evtlistSize } ∧
    s.data.fdDataSize ≤ s'.data.fdDataSize ∧ reg s'.kern s'.data.epfd = reg s.kern s.data.epfd ∧ FailedStep K s pds e
  added : error = none → (∀ fd, s'.data.fdData fd = (s.data.fdData fd).more pds fd) ∧ Follows reg s'

section
variable {K : Kernel κ ω} {reg : κ → Int → Int → Option (BitVec 32)} {steady : κ → Prop}

theorem AllOrNothing.none {s s' : State κ} {pds : List PollFd}
    (counts : ∀ fd, s'.data.fdData fd = (s.data.fdData fd).more pds fd) (follows : Follows reg s') :
    AllOrNothing K reg s pds s' none :=
  ⟨by simp, fun _ => ⟨counts, follows⟩⟩

theorem AllOrNothing.some {s s' : State κ} {pds : List PollFd} {e : AddError}
    (data : s'.data = { s.data with fdDataSize := s'.data.fdDataSize, evtlistSize := s'.data.evtlistSize })
    (size : s.data.fdDataSize ≤ s'.data.fdDataSize) (table : reg s'.kern s'.data.epfd = reg s.kern s.data.epfd)
    (step : FailedStep K s pds e) : AllOrNothing K reg s pds s' (some e) := by
  refine ⟨fun e' same => ?_, by simp⟩
  cases same
  exact ⟨data, size, table, step⟩

end

/-- A pollset_add that fails leaves everything as it was. In the state it breaks off in the
kernel is steady, so that the roll-back can take back what was registered. -/
theorem pollset_add_atomic (K : Kernel κ ω) (reg : κ → Int → Int → Option (BitVec 32)) (steady : κ → Prop)
    (sem : CtlSet K reg steady) (s : State κ) (mirrored : Mirrored reg s) (pds : List PollFd)
    (calm : ∀ s₁ s₂ stop, checkLoop K pds s = some (s₁, none) → addLoop K pds 0 s₁ = some (s₂, some stop) →
      steady s₂.kern)
    (s' : State κ) (error : Option AddError) (run : pollsetAdd K s pds = some (s', error)) :
    AllOrNothing K reg s pds s' error := by
  obtain ⟨size, -, added, refused⟩ := pollsetAdd_data mirrored.blank run
  simp only [pollsetAdd, Option.bind_eq_bind, Option.bind_eq_some_iff] at run
  obtain ⟨⟨s₁, rejected⟩, checked, run⟩ := run
  obtain ⟨grown, valid⟩ := checkLoop_spec mirrored.blank checked
  obtain ⟨mirrored₁, epfd, count, table⟩ := mirrored.grown sem grown
  cases rejected with
  | some e =>
    cases run
    refine .some ?_ size (by rw [table, epfd]) ?_
    · rw [grown.rest, grown.fdData]
    · obtain ⟨before, pd, after, s₂, split, reached, ⟨wrong, rfl⟩ | ⟨-, outside, failed, rfl⟩⟩ := checkLoop_break checked
      · exact .invalid split reached wrong
      · exact .memory split reached outside failed
  | none =>
    simp only [Option.bind_eq_some_iff] at run
    obtain ⟨⟨s₂, stop⟩, loop, run⟩ := run
    cases stop with
    | none =>
      cases run
      have follows := mirrored₁.follows.addLoop sem (Mirrored.balanced s₁) mirrored₁.nonneg
        (fun pd member => (valid rfl pd member).1) loop
      exact .none (added rfl).1 follows.1
    | some at_ =>
      obtain ⟨e, n⟩ := at_
      have steady₂ := calm _ _ _ checked loop
      obtain ⟨before, pd, after, s₃, split, index, reached, broke⟩ := addLoop_break loop
      have part : pds.take (n + 1) = before ++ [pd] := by
        rw [index, split, Nat.zero_add, List.take_append, List.take_of_length_le (by omega)]
        simp
      cases run
      rw [part] at refused size ⊢
      have valid' : ∀ p ∈ before ++ [pd], Valid p := by
        intro p member
        rw [← part] at member
        exact (valid rfl p (List.mem_of_mem_take member)).1
      obtain ⟨back, level⟩ := mirrored₁.rollback sem valid' reached broke steady₂
      have rest : (pollsetDel K s₂ (before ++ [pd])).data.epfd = s₁.data.epfd := by
        rw [pollsetDel_rest, addLoop_rest loop]
      refine .some ?_ size ?_ ?_
      · have same := refused (by simp)
        rw [pollsetDel_rest, addLoop_rest loop, grown.rest]
        rw [same, level, count]
      · rw [rest, back, table, epfd]
      · obtain ⟨data, -, -, answer⟩ := sem.refused broke
        rw [data] at answer
        exact .refused split checked reached answer

/-- A kernel with one set that has no memory for one call, after as many others as left
says. -/
structure Countdown where
  registered : Int → Option (BitVec 32)
  left : Option Nat

def Countdown.ctl (k : Countdown) (op : CtlOp) (fd : Int) (events : BitVec 32) : Countdown × Option AddError :=
  match k.left with
  | some 0 => ({ k with left := none }, some .enomem)
  | left =>
    let k := { k with left := left.map (· - 1) }
    match op, k.registered fd with
    | .add, none | .mod, some _ => ({ k with registered := Function.update k.registered fd (some events) }, none)
    | .del, some _ => ({ k with registered := Function.update k.registered fd none }, none)
    | .add, some _ => (k, some .eexist)
    | .mod, none | .del, none => (k, some .enoent)

def countdown : Kernel Countdown Unit where
  epollCtl k _ op fd events := k.ctl op fd events
  epollWait k _ _ _ := (k, [])
  epollCreate k _ := (k, some 3)
  close k _ := k
  realloc k _ := (k, true)
  getpid _ := 1
  outside k _ := k

theorem countdown_set : CtlSet countdown (fun k _ => k.registered) (fun k => k.left = none) where
  done k epfd op fd events ok := by
    obtain ⟨registered, left⟩ := k
    cases op <;> cases here : registered fd <;> rcases left with _ | _ | left <;>
      simp [countdown, Countdown.ctl, here] at ok ⊢
  failed k epfd op fd events failed := by
    obtain ⟨registered, left⟩ := k
    cases op <;> cases here : registered fd <;> rcases left with _ | _ | left <;>
      simp [countdown, Countdown.ctl, here] at failed ⊢
  exists_ k epfd fd events known := by
    obtain ⟨registered, left⟩ := k
    cases here : registered fd <;> rcases left with _ | _ | left <;> simp [countdown, Countdown.ctl, here] at known ⊢
  absent k epfd op fd events kind gone := by
    obtain ⟨registered, left⟩ := k
    cases op <;> rcases left with _ | _ | left <;> simp_all [countdown, Countdown.ctl]
  realloc k n := rfl
  there k epfd op fd events calm kind there := by
    obtain ⟨registered, left⟩ := k
    cases op <;> cases here : registered fd <;> simp_all [countdown, Countdown.ctl]
  steady k epfd op fd events calm kind := by
    obtain ⟨registered, left⟩ := k
    cases op <;> cases here : registered fd <;> simp_all [countdown, Countdown.ctl]

def oneReader : State Countdown where
  data := (init 64 4 1).setFd 5 ⟨1, 0, 0, 0⟩
  kern := ⟨Function.update (fun _ => none) 5 (some epollIn), some 2⟩

theorem oneReader_mirrored : Mirrored (fun k _ => k.registered) oneReader where
  blank := by
    refine ⟨by decide, fun fd beyond => ?_⟩
    have other : fd ≠ 5 := by
      rintro rfl
      exact absurd beyond (by decide)
    simp [oneReader, Data.setFd, other, init]
  nonneg fd := by
    by_cases h : fd = 5 <;> simp [oneReader, Data.setFd, h, init, FdData.Nonneg]
  silent fd := by
    by_cases h : fd = 5 <;> simp [oneReader, Data.setFd, h, init]
  follows fd := by
    by_cases h : fd = 5
    · subst h; decide
    · simp [oneReader, Data.setFd, Data.mask, h, init, FdData.events, wanted]

/-- The third call fails, at the second entry for descriptor 5. The roll-back registers a
mask for it that no entry asked for. -/
theorem pollset_add_atomic_repeated_descriptor :
    ∃ s', pollsetAdd countdown oneReader [⟨5, pollOut, 0⟩, ⟨6, pollIn, 0⟩, ⟨5, pollPri, 0⟩] = some (s', some .enomem) ∧
      AllOrNothing countdown (fun k _ => k.registered) oneReader [⟨5, pollOut, 0⟩, ⟨6, pollIn, 0⟩, ⟨5, pollPri, 0⟩] s'
        (some .enomem) := by
  have seen : (pollsetAdd countdown oneReader [⟨5, pollOut, 0⟩, ⟨6, pollIn, 0⟩, ⟨5, pollPri, 0⟩]).any
      (fun r => r.2 = some .enomem) = true := by decide +kernel
  obtain ⟨⟨s', error⟩, run, answer⟩ := (Option.any_eq_true _ _).mp seen
  have answer : error = some .enomem := by simpa using answer
  subst answer
  refine ⟨s', run, pollset_add_atomic countdown _ _ countdown_set oneReader oneReader_mirrored _ ?_ s' _ run⟩
  intro s₁ s₂ stop checked loop
  have calm : ((checkLoop countdown [⟨5, pollOut, 0⟩, ⟨6, pollIn, 0⟩, ⟨5, pollPri, 0⟩] oneReader).bind fun r =>
      addLoop countdown [⟨5, pollOut, 0⟩, ⟨6, pollIn, 0⟩, ⟨5, pollPri, 0⟩] 0 r.1).all
      (fun r => r.1.kern.left = none) = true := by decide +kernel
  rw [checked, Option.bind_some, loop] at calm
  simpa using calm

/- The branch after a fork, with the log of its calls. -/

def Ctl.Accepted (c : Ctl) : Prop := c.answer = none ∨ c.op = .add ∧ c.answer = some .eexist

structure Logged (s s' : State (κ × List Ctl)) (calls : List Ctl) (error : Option AddError) : Prop where
  grew : s'.kern.2 = calls ++ s.kern.2
  accepted : error = none → ∀ c ∈ calls, c.Accepted
  refused : error ≠ none → ∃ c ∈ calls, ¬ c.Accepted

section
variable {K : Kernel κ ω}

theorem addOne_logged {s s' : State (κ × List Ctl)} {pd : PollFd} {error : Option AddError}
    (run : addOne K.logged s pd = some (s', error)) : ∃ calls, Logged s s' calls error := by
  obtain ⟨-, rfl, rfl⟩ | ⟨-, op, -, told⟩ := addOne_cases run
  · exact ⟨[], rfl, by simp, by simp⟩
  · refine ⟨[⟨op, pd.fd, (K.logged.epollCtl s.kern s.data.epfd op pd.fd ((s.data.moved pd 1).mask pd.fd)).2⟩], ?_⟩
    obtain ⟨failed, rfl, which, rfl⟩ | ⟨answer, rfl, size, -, kern⟩ := told
    · refine ⟨rfl, fun none => absurd none failed, fun _ => ⟨_, List.mem_singleton_self _, ?_⟩⟩
      rintro (ok | ⟨add, exists_⟩)
      · exact failed ok
      · exact which.elim (fun other => other add) (fun other => other exists_)
    · refine ⟨?_, fun _ c member => ?_, by simp⟩
      · obtain same | ⟨n, same⟩ := kern <;> rw [same] <;> rfl
      · obtain rfl := List.mem_singleton.mp member
        exact answer

theorem delOne_logged (s : State (κ × List Ctl)) (pd : PollFd) :
    ∃ calls, (delOne K.logged s pd).kern.2 = calls ++ s.kern.2 := by
  obtain ⟨-, same⟩ | ⟨-, -, -, same⟩ | ⟨-, -, -, same⟩ := delOne_cases (K := K.logged) s pd
  · exact ⟨[], by rw [same]; rfl⟩
  · exact ⟨[_], by rw [same]; rfl⟩
  · exact ⟨[_], by rw [same]; rfl⟩

theorem pollsetDel_logged (s : State (κ × List Ctl)) (pds : List PollFd) :
    ∃ calls, (pollsetDel K.logged s pds).kern.2 = calls ++ s.kern.2 := by
  unfold pollsetDel
  induction pds generalizing s with
  | nil => exact ⟨[], rfl⟩
  | cons pd pds ih =>
    obtain ⟨first, grew⟩ := delOne_logged (K := K) s pd
    obtain ⟨later, grew'⟩ := ih (delOne K.logged s pd)
    exact ⟨later ++ first, by rw [List.foldl_cons, grew', grew, List.append_assoc]⟩

theorem addLoop_logged {pds : List PollFd} {i : Nat} {s s' : State (κ × List Ctl)} {stop : Option (AddError × Nat)}
    (run : addLoop K.logged pds i s = some (s', stop)) : ∃ calls, Logged s s' calls (stop.map Prod.fst) := by
  induction pds generalizing i s with
  | nil =>
    cases run
    exact ⟨[], rfl, by simp, by simp⟩
  | cons pd pds ih =>
    simp only [addLoop, Option.bind_eq_bind, Option.bind_eq_some_iff] at run
    obtain ⟨⟨s₁, error⟩, one, run⟩ := run
    obtain ⟨first, grew, accepted, refused⟩ := addOne_logged one
    cases error with
    | some e =>
      cases run
      exact ⟨first, grew, by simp, fun _ => refused (by simp)⟩
    | none =>
      obtain ⟨later, grew', accepted', refused'⟩ := ih run
      refine ⟨later ++ first, by rw [grew', grew, List.append_assoc], fun ok c member => ?_, fun failed => ?_⟩
      · obtain new | old := List.mem_append.mp member
        · exact accepted' ok c new
        · exact accepted rfl c old
      · obtain ⟨c, member, bad⟩ := refused' failed
        exact ⟨c, List.mem_append_left _ member, bad⟩

theorem pollsetAdd_logged {s s' : State (κ × List Ctl)} {pds : List PollFd} {error : Option AddError}
    (inside : ∀ pd ∈ pds, Valid pd ∧ pd.fd < s.data.fdDataSize) (run : pollsetAdd K.logged s pds = some (s', error)) :
    ∃ calls, Logged s s' calls error := by
  obtain ⟨rfl, added⟩ | ⟨s₁, e, i, rfl, added, rfl⟩ := pollsetAdd_inside inside run
  · exact addLoop_logged added
  · obtain ⟨first, grew, -, refused⟩ := addLoop_logged added
    obtain ⟨later, grew'⟩ := pollsetDel_logged (K := K) s₁ (pds.take (i + 1))
    refine ⟨later ++ first, by rw [grew', grew, List.append_assoc], by simp, fun _ => ?_⟩
    obtain ⟨c, member, bad⟩ := refused (by simp)
    exact ⟨c, List.mem_append_right _ member, bad⟩

structure Refilled (s s' : State (κ × List Ctl)) (ioq : List (List PollFd)) (calls : List Ctl)
    (kept dropped : List (List PollFd)) : Prop where
  grew : s'.kern.2 = calls ++ s.kern.2
  split : ioq.Perm (kept ++ dropped)
  some_ : ∀ pds ∈ dropped, pds ≠ []
  size : s'.data.fdDataSize = s.data.fdDataSize
  counts : ∀ fd, s'.data.fdData fd = (s.data.fdData fd).more kept.flatten fd
  accepted : (∀ c ∈ calls, c.Accepted) ↔ dropped = []

theorem refill_logged {s s' : State (κ × List Ctl)} {ioq : List (List PollFd)}
    (inside : ∀ pds ∈ ioq, ∀ pd ∈ pds, Valid pd ∧ pd.fd < s.data.fdDataSize)
    (run : refill K.logged s ioq = some s') : ∃ calls kept dropped, Refilled s s' ioq calls kept dropped := by
  induction ioq generalizing s with
  | nil =>
    cases run
    exact ⟨[], [], [], rfl, .refl _, by simp, rfl, by simp, by simp⟩
  | cons pds ioq ih =>
    obtain ⟨s₁, error, added, run⟩ := refill_cons run
    have here := inside pds (List.mem_cons_self ..)
    obtain ⟨size, counted, refused⟩ := pollsetAdd_counts here added
    obtain ⟨first, log⟩ := pollsetAdd_logged here added
    obtain ⟨later, kept, dropped, rest⟩ := ih
      (fun p member => by rw [size]; exact inside p (List.mem_cons_of_mem _ member)) run
    have grew : s'.kern.2 = (later ++ first) ++ s.kern.2 := by rw [rest.grew, log.grew, List.append_assoc]
    have all : (∀ c ∈ later ++ first, c.Accepted) ↔ (∀ c ∈ later, c.Accepted) ∧ ∀ c ∈ first, c.Accepted :=
      List.forall_mem_append
    cases error with
    | none =>
      refine ⟨later ++ first, pds :: kept, dropped, grew, rest.split.cons pds, rest.some_, rest.size.trans size, fun fd => ?_, ?_⟩
      · rw [rest.counts, counted rfl, List.flatten_cons, FdData.more_append]
      · rw [all, rest.accepted]
        exact and_iff_left (log.accepted rfl)
    | some e =>
      obtain ⟨nonempty, same⟩ := refused (by simp)
      refine ⟨later ++ first, kept, pds :: dropped, grew, ?_, ?_, rest.size.trans size, fun fd => ?_, ?_⟩
      · exact (rest.split.cons pds).trans List.perm_middle.symm
      · rintro p (_ | ⟨_, member⟩)
        · exact nonempty
        · exact rest.some_ p member
      · rw [rest.counts, same]
      · obtain ⟨c, member, bad⟩ := log.refused (by simp)
        rw [all]
        constructor
        · rintro ⟨-, ok⟩
          exact absurd (ok c member) bad
        · intro never
          cases never

end

def queued (vp : Vp) : List (List PollFd) := vp.ioQ.map fun t => (vp.pollq t).pds

def Tallied (d : Data) (ioq : List (List PollFd)) (fd : Int) : Prop :=
  (d.fdData fd).rdRefCnt = tally PollFd.reads ioq.flatten fd ∧
    (d.fdData fd).wrRefCnt = tally PollFd.writes ioq.flatten fd ∧
    (d.fdData fd).exRefCnt = tally PollFd.excepts ioq.flatten fd

theorem Tallied.nonneg {d : Data} {ioq : List (List PollFd)} {fd : Int} (tallied : Tallied d ioq fd) :
    (d.fdData fd).Nonneg := by
  obtain ⟨rd, wr, ex⟩ := tallied
  rw [FdData.Nonneg, rd, wr, ex]
  exact ⟨tally_nonneg _ _ _, tally_nonneg _ _ _, tally_nonneg _ _ _⟩

theorem Tallied.closes {d : Data} {ioq : List (List PollFd)} {fd : Int} (tallied : Tallied d ioq fd)
    (unnamed : ∀ pds ∈ ioq, ∀ pd ∈ pds, pd.fd ≠ fd) : fdClose d fd = none := by
  obtain ⟨rd, wr, ex⟩ := tallied
  have away : ∀ pd ∈ ioq.flatten, pd.fd ≠ fd := by
    intro pd member
    obtain ⟨pds, there, member⟩ := List.mem_flatten.mp member
    exact unnamed pds there pd member
  rw [fdClose, rd, wr, ex, tally_unnamed away, tally_unnamed away, tally_unnamed away, if_neg (by simp)]

structure Restored (K : Kernel κ ω) (s : State κ) (ioq : List (List PollFd)) : Prop where
  counts : ∀ fd, 0 ≤ fd → fd < s.data.fdDataSize → Tallied s.data ioq fd
  withdrawn : ∀ gone left, ioq.Perm (gone ++ left) → ∀ fd, 0 ≤ fd → fd < s.data.fdDataSize →
    ((gone.foldl (pollsetDel K) s).data.fdData fd).Nonneg
  closes : ∀ gone left, ioq.Perm (gone ++ left) → ∀ fd, 0 ≤ fd → fd < s.data.fdDataSize →
    (∀ pds ∈ left, ∀ pd ∈ pds, pd.fd ≠ fd) → fdClose (gone.foldl (pollsetDel K) s).data fd = none

theorem withdrawals_data (K : Kernel κ ω) (gone : List (List PollFd)) (s : State κ) (fd : Int) :
    (gone.foldl (pollsetDel K) s).data.fdData fd = (s.data.fdData fd).less gone.flatten fd := by
  induction gone generalizing s with
  | nil => simp
  | cons pds gone ih => rw [List.foldl_cons, ih, (pollsetDel_data s pds).1, List.flatten_cons, FdData.less_append]

theorem tally_perm (kind : PollFd → Bool) {ps qs : List PollFd} (same : ps.Perm qs) (fd : Int) :
    tally kind ps fd = tally kind qs fd := by
  rw [tally, tally, same.countP_eq]

theorem Tallied.withdrawn {K : Kernel κ ω} {s : State κ} {ioq gone left : List (List PollFd)} {fd : Int}
    (tallied : Tallied s.data ioq fd) (split : ioq.Perm (gone ++ left)) :
    Tallied (gone.foldl (pollsetDel K) s).data left fd := by
  obtain ⟨rd, wr, ex⟩ := tallied
  have all : ∀ kind, tally kind ioq.flatten fd = tally kind gone.flatten fd + tally kind left.flatten fd := by
    intro kind
    rw [tally_perm kind split.flatten, List.flatten_append, tally_append]
  rw [Tallied, withdrawals_data]
  simp only [FdData.less, rd, wr, ex, all]
  omega

theorem Restored.of_counts (K : Kernel κ ω) {s : State κ} {ioq : List (List PollFd)}
    (counts : ∀ fd, 0 ≤ fd → fd < s.data.fdDataSize → Tallied s.data ioq fd) : Restored K s ioq where
  counts := counts
  withdrawn _ _ split fd low high := ((counts fd low high).withdrawn split).nonneg
  closes _ _ split fd low high unnamed := ((counts fd low high).withdrawn split).closes unnamed

theorem Refilled.restored_iff {K : Kernel κ ω} {s s' : State (κ × List Ctl)} {ioq kept dropped : List (List PollFd)}
    {calls : List Ctl} (refilled : Refilled s s' ioq calls kept dropped)
    (blank : ∀ fd, 0 ≤ fd → fd < s.data.fdDataSize → s.data.fdData fd = ⟨0, 0, 0, 0⟩)
    (inside : ∀ pds ∈ ioq, ∀ pd ∈ pds, Valid pd ∧ pd.fd < s.data.fdDataSize) :
    Restored K.logged s' ioq ↔ ∀ c ∈ calls, c.Accepted := by
  have counts : ∀ fd, 0 ≤ fd → fd < s.data.fdDataSize → Tallied s'.data kept fd := by
    intro fd low high
    rw [Tallied, refilled.counts, blank fd low high]
    simp [FdData.more]
  have all : ∀ kind fd, tally kind ioq.flatten fd = tally kind kept.flatten fd + tally kind dropped.flatten fd := by
    intro kind fd
    rw [tally_perm kind refilled.split.flatten, List.flatten_append, tally_append]
  rw [refilled.accepted]
  constructor
  · intro restored
    by_contra some_
    obtain ⟨pds, dropped_⟩ := List.exists_mem_of_ne_nil _ some_
    obtain ⟨pd, entry⟩ := List.exists_mem_of_ne_nil _ (refilled.some_ pds dropped_)
    have member : pd ∈ dropped.flatten := List.mem_flatten.mpr ⟨pds, dropped_, entry⟩
    obtain ⟨valid, high⟩ := inside pds (refilled.split.mem_iff.mpr (List.mem_append_right _ dropped_)) pd entry
    obtain ⟨rd, wr, ex⟩ := restored.counts pd.fd valid.fd (by rw [refilled.size]; exact high)
    obtain ⟨rd', wr', ex'⟩ := counts pd.fd valid.fd high
    rw [rd', all] at rd
    rw [wr', all] at wr
    rw [ex', all] at ex
    obtain reads | writes | excepts := valid.counted
    · exact absurd (tally_pos_iff.mpr ⟨pd, member, rfl, reads⟩) (by omega)
    · exact absurd (tally_pos_iff.mpr ⟨pd, member, rfl, writes⟩) (by omega)
    · exact absurd (tally_pos_iff.mpr ⟨pd, member, rfl, excepts⟩) (by omega)
  · rintro rfl
    apply Restored.of_counts
    intro fd low high
    rw [refilled.size] at high
    obtain ⟨rd, wr, ex⟩ := counts fd low high
    simp only [List.flatten_nil] at all
    have zero : ∀ kind, tally kind [] fd = 0 := fun _ => rfl
    exact ⟨by rw [rd, all, zero, add_zero], by rw [wr, all, zero, add_zero], by rw [ex, all, zero, add_zero]⟩

/-- No epoll_ctl of the branch is refused in this step. -/
def Accepting (K : Kernel κ ω) (s : System (State (κ × List Ctl))) (l : Label ω) : Prop :=
  ∀ now time, l = .idle now time → s.evt.data.pid ≠ K.logged.getpid s.evt.kern → ∀ evt calls,
    afterFork K.logged s.evt (queued s.vp) = some (evt, true) → evt.kern.2 = calls ++ s.evt.kern.2 →
    ∀ c ∈ calls, c.Accepted

section
variable {K : Kernel κ ω}

theorem afterFork_logged {s s' : State (κ × List Ctl)} {ioq : List (List PollFd)}
    (inside : ∀ pds ∈ ioq, ∀ pd ∈ pds, Valid pd ∧ pd.fd < s.data.fdDataSize)
    (run : afterFork K.logged s ioq = some (s', true)) :
    ∃ kern epfd calls kept dropped, kern.2 = s.kern.2 ∧
      Refilled ⟨s.data.cleared epfd (K.logged.getpid kern), kern⟩ s' ioq calls kept dropped := by
  obtain ⟨never, -⟩ | ⟨-, epfd, refilled⟩ := afterFork_cases run
  · cases never
  · obtain ⟨calls, kept, dropped, done⟩ := refill_logged (s := ⟨s.data.cleared epfd _, _⟩) inside refilled
    exact ⟨(K.logged.epollCreate (K.logged.close s.kern s.data.epfd) s.data.fdHint).1, epfd, calls, kept, dropped, rfl, done⟩

theorem Accounts.cleared {s : State κ} {ps : List PollFd} (account : Accounts s ps) (epfd : Int) (pid : Nat) (fd : Int) :
    (s.data.cleared epfd pid).fdData fd = ⟨0, 0, 0, 0⟩ := by
  obtain ⟨counted, silent⟩ := account
  simp only [Data.cleared]
  split
  · rfl
  · rename_i outside
    by_cases low : 0 ≤ fd
    · exact (counted.blank silent).2 fd (by omega)
    · have away : ∀ pd ∈ ps, pd.fd ≠ fd := by
        rintro pd member rfl
        exact low (counted.inside pd member).1.fd
      have counts := counted.counts fd
      simp only [FdData.more, tally_unnamed away] at counts
      have same : s.data.fdData fd = (s.data.fdData fd).quiet := by
        rw [FdData.quiet, ← silent fd]
      rw [same, counts]
      rfl

theorem loggedSys_recounts (K : Kernel κ ω) (created : κ → Int → Prop) :
    Keeping (loggedSys K created) (Accepting K) Accounts where
  asks := (eventSys_accounts K.logged fun k epfd => created k.1 epfd ∧ k.2 = []).asks
  initial := (eventSys_accounts K.logged _).initial
  added := (eventSys_accounts K.logged _).added
  refused := (eventSys_accounts K.logged _).refused
  deleted := (eventSys_accounts K.logged _).deleted
  dispatched s now time evt vp ok settled idle kept run := by
    have book := eventSys_accounts K.logged fun k epfd => created k.1 epfd ∧ k.2 = []
    by_cases same : s.evt.data.pid = K.logged.getpid s.evt.kern
    · exact book.keeping.dispatched s now time evt vp (fun _ _ _ => same) settled idle kept run
    · simp only [dispatch, Option.bind_eq_bind, Option.bind_eq_some_iff] at run
      obtain ⟨⟨evt₁, found⟩, answer, run⟩ := run
      refine book.walked settled idle ?_ run
      rw [show (loggedSys K created).wait = wait K.logged from rfl, wait, if_pos same] at answer
      simp only [Option.bind_eq_bind, Option.bind_eq_some_iff] at answer
      obtain ⟨⟨s₁, made⟩, forked, answer⟩ := answer
      cases made with
      | false =>
        cases answer
        obtain ⟨-, data⟩ | ⟨never, -⟩ := afterFork_cases forked
        · have after : Accounts s₁ (polled s.vp) := by
            obtain ⟨counted, silent⟩ := kept
            rw [Accounts, data]
            exact ⟨⟨counted.counts, counted.inside, counted.size⟩, silent⟩
          exact after
        · cases never
      | true =>
        have inside : ∀ pds ∈ queued s.vp, ∀ pd ∈ pds, Valid pd ∧ pd.fd < s.evt.data.fdDataSize := by
          intro pds there pd member
          apply kept.1.inside
          rw [polled_flatten]
          exact List.mem_flatten.mpr ⟨pds, there, member⟩
        obtain ⟨kern, epfd, calls, kept', dropped, log, refilled⟩ := afterFork_logged inside forked
        have accepted := ok now time rfl same s₁ calls forked (by rw [refilled.grew, log])
        have none := refilled.accepted.mp accepted
        have split := refilled.split
        rw [none, List.append_nil] at split
        have counts : ∀ fd, s₁.data.fdData fd = FdData.more ⟨0, 0, 0, 0⟩ (polled s.vp) fd := by
          intro fd
          rw [refilled.counts, kept.cleared, polled_flatten]
          exact FdData.more_asks (split.symm.flatten.map _) _ fd
        have after : Accounts s₁ (polled s.vp) := by
          refine ⟨⟨fun fd => by rw [counts]; rfl, fun pd member => ?_, ?_⟩, fun fd => by rw [counts]; rfl⟩
          · rw [refilled.size]
            exact kept.1.inside pd member
          · rw [refilled.size]
            exact kept.1.size
        exact after.waited (Option.some.inj answer)
  fdNew := (eventSys_accounts K.logged _).fdNew
  outside s change _ kept := (eventSys_accounts K.logged _).outside s change (fun _ _ h => by cases h) kept

end

/-- After a fork the counts are right exactly if no epoll_ctl call of the branch was
refused; in a run without such a call they stay right. -/
theorem fork_accounting (K : Kernel κ ω) (created : κ → Int → Prop) (hist : List (SysEvent (State (κ × List Ctl)) ω))
    (s : System (State (κ × List Ctl))) (run : SysRun (loggedSys K created) hist s) :
    (∀ evt, afterFork K.logged s.evt (queued s.vp) = some (evt, true) → ∃ calls, evt.kern.2 = calls ++ s.evt.kern.2 ∧
      (Restored K.logged evt (queued s.vp) ↔ ∀ c ∈ calls, c.Accepted)) ∧
    ((∀ e ∈ hist, Accepting K e.pre e.label) → Restored K.logged s.evt (queued s.vp)) := by
  constructor
  · intro evt forked
    have entries := (eventSys_inside K.logged fun k epfd => created k.1 epfd ∧ k.2 = []).run run fun _ _ => trivial
    have here : ∀ pds ∈ queued s.vp, ∀ pd ∈ pds, Valid pd ∧ pd.fd < s.evt.data.fdDataSize := by
      intro pds there pd member
      apply entries.2
      rw [polled_flatten]
      exact List.mem_flatten.mpr ⟨pds, there, member⟩
    obtain ⟨kern, epfd, calls, kept, dropped, log, refilled⟩ := afterFork_logged here forked
    refine ⟨calls, by rw [refilled.grew, log], refilled.restored_iff (fun fd low high => ?_) here⟩
    exact if_pos ⟨low, high⟩
  · intro accepting
    obtain ⟨counted, -⟩ := (loggedSys_recounts K created).run run accepting
    apply Restored.of_counts
    intro fd _ _
    have counts := counted.counts fd
    simp only [FdData.quiet, FdData.more, zero_add, FdData.mk.injEq, and_true, polled_flatten] at counts
    exact counts

structure Forking where
  pid : Nat
  full : Bool

def forking : Kernel Forking Forking where
  epollCtl k _ op _ _ := (k, if k.full && op = .add then some .enospc else none)
  epollWait k _ _ _ := (k, [])
  epollCreate k _ := (k, some 4)
  close k _ := k
  realloc k _ := (k, true)
  getpid k := k.pid
  outside _ k := k

def startedForking : System (State (Forking × List Ctl)) where
  vp := (stInit Vp.boot ⟨true, true, 0, some 0, some 1⟩).getD Vp.boot
  evt := ⟨init 64 4 1, ⟨1, false⟩, []⟩

theorem startedForking_ok : Started (loggedSys forking fun _ _ => True) startedForking :=
  ⟨⟨64, 4, ⟨trivial, rfl⟩, rfl⟩, ⟨true, true, 0, some 0, some 1⟩, rfl, by decide⟩

/-- One thread polls when the process forks, and its descriptor is put into the new set. -/
theorem fork_accounting_one_reader :
    ∃ hist s evt, SysRun (loggedSys forking fun _ _ => True) hist s ∧
      (s.evt.data.pid ≠ forking.logged.getpid s.evt.kern ∧ queued s.vp = [[⟨5, pollIn, 0⟩]]) ∧
      afterFork forking.logged s.evt (queued s.vp) = some (evt, true) ∧ Restored forking.logged evt (queued s.vp) := by
  obtain ⟨hist, s, run, seen⟩ := Run.found (M := machine (loggedSys forking fun _ _ => True))
    [.call (.poll [⟨5, pollIn, 0⟩] 900), .outside ⟨2, false⟩] startedForking_ok
    (p := fun _ s => decide (s.evt.data.pid ≠ forking.logged.getpid s.evt.kern ∧ queued s.vp = [[⟨5, pollIn, 0⟩]]) &&
      (afterFork forking.logged s.evt (queued s.vp)).any fun r =>
        r.2 && r.1.kern.2 = ⟨.add, 5, none⟩ :: s.evt.kern.2) (by decide +kernel)
  simp only [Bool.and_eq_true, decide_eq_true_eq] at seen
  obtain ⟨here, seen⟩ := seen
  obtain ⟨⟨evt, made⟩, forked, log⟩ := (Option.any_eq_true _ _).mp seen
  simp only [Bool.and_eq_true, decide_eq_true_eq] at log
  obtain ⟨rfl, log⟩ := log
  obtain ⟨calls, grew, iff⟩ := (fork_accounting forking _ hist s run).1 evt forked
  refine ⟨hist, s, evt, run, here, forked, iff.mpr fun c member => ?_⟩
  have only : calls = [⟨.add, 5, none⟩] := List.append_cancel_right (grew.symm.trans log)
  rw [only, List.mem_singleton] at member
  rw [member]
  exact .inl rfl

/-- The descriptor is refused, and its thread stays on io_q. When the thread times out the
count of readers is -1, and the descriptor cannot be closed any more. -/
theorem fork_accounting_refused_reader :
    ∃ hist s evt, SysRun (loggedSys forking fun _ _ => True) hist s ∧
      (s.evt.data.pid ≠ forking.logged.getpid s.evt.kern ∧ queued s.vp = [[⟨5, pollIn, 0⟩]]) ∧
      afterFork forking.logged s.evt (queued s.vp) = some (evt, true) ∧
      (((pollsetDel forking.logged evt [⟨5, pollIn, 0⟩]).data.fdData 5).rdRefCnt = -1 ∧
        fdClose (pollsetDel forking.logged evt [⟨5, pollIn, 0⟩]).data 5 = some .ebusy) ∧
      ¬ Restored forking.logged evt (queued s.vp) := by
  obtain ⟨hist, s, run, seen⟩ := Run.found (M := machine (loggedSys forking fun _ _ => True))
    [.call (.poll [⟨5, pollIn, 0⟩] 900), .outside ⟨2, true⟩] startedForking_ok
    (p := fun _ s => decide (s.evt.data.pid ≠ forking.logged.getpid s.evt.kern ∧ queued s.vp = [[⟨5, pollIn, 0⟩]]) &&
      (afterFork forking.logged s.evt (queued s.vp)).any fun (r : State (Forking × List Ctl) × Bool) =>
        r.2 && decide (((pollsetDel forking.logged r.1 [⟨5, pollIn, 0⟩]).data.fdData 5).rdRefCnt = -1 ∧
          fdClose (pollsetDel forking.logged r.1 [⟨5, pollIn, 0⟩]).data 5 = some .ebusy) &&
          decide (5 < r.1.data.fdDataSize)) (by decide +kernel)
  simp only [Bool.and_eq_true, decide_eq_true_eq] at seen
  obtain ⟨here, seen⟩ := seen
  obtain ⟨⟨evt, made⟩, forked, after⟩ := (Option.any_eq_true _ _).mp seen
  simp only [Bool.and_eq_true, decide_eq_true_eq] at after
  obtain ⟨⟨rfl, after⟩, room⟩ := after
  refine ⟨hist, s, evt, run, here, forked, after, fun restored => ?_⟩
  rw [here.2] at restored
  have nonneg := (restored.withdrawn [[⟨5, pollIn, 0⟩]] [] (by simp) 5 (by decide) room).1
  rw [List.foldl_cons, List.foldl_nil, after.1] at nonneg
  exact absurd nonneg (by decide)

end StateThreads.Epoll
