import StateThreads.Event.Accounts
import StateThreads.Event.Select

/-! The sets and reference counts of the select event system. They are those of the pollfd
entries on io_q, and every descriptor in them is below the first argument of select. -/
namespace StateThreads.Select
open Epoll (tally tally_append tally_asks tally_nonneg tally_one)

/-- A set with its counts, for one kind of event: the counts are those of the entries ps,
and the set holds the descriptors that are counted. -/
structure Kept (kind : PollFd → Bool) (set : FdSet) (cnt : Int → Int) (ps : List PollFd) : Prop where
  count : ∀ fd, cnt fd = tally kind ps fd
  bit : ∀ fd, set fd = true ↔ 0 < cnt fd

variable {kind : PollFd → Bool} {set : FdSet} {cnt : Int → Int} {ps qs : List PollFd} {pd : PollFd}

theorem Kept.asks (asked : ∃ k : Int × BitVec 16 → Bool, ∀ pd, kind pd = k pd.ask) (same : SameAsks ps qs)
    (kept : Kept kind set cnt ps) : Kept kind set cnt qs where
  count fd := (kept.count fd).trans (tally_asks kind asked same fd)
  bit := kept.bit

theorem Kept.include_ (kept : Kept kind set cnt ps) :
    Kept kind (include_ (kind pd) pd.fd set cnt).1 (include_ (kind pd) pd.fd set cnt).2 (ps ++ [pd]) := by
  have low := fun fd => tally_nonneg kind ps fd
  unfold Select.include_
  cases asks : kind pd with
  | false =>
    refine ⟨fun fd => ?_, kept.bit⟩
    simp [tally_append, tally_one, asks, kept.count]
  | true =>
    constructor
    · intro fd
      by_cases h : fd = pd.fd
      · subst h; simp [tally_append, tally_one, asks, kept.count]
      · simp [tally_append, tally_one, h, kept.count]
    · intro fd
      by_cases h : fd = pd.fd
      · subst h
        have := low pd.fd
        simp only [if_true, Function.update_self, kept.count, true_iff]
        omega
      · simpa [h] using kept.bit fd

theorem Kept.exclude (kept : Kept kind set cnt (pd :: ps)) :
    Kept kind (exclude (kind pd) pd.fd set cnt).1 (exclude (kind pd) pd.fd set cnt).2 ps := by
  have count : ∀ fd, cnt fd = (if fd = pd.fd ∧ kind pd = true then 1 else 0) + tally kind ps fd := by
    intro fd
    rw [kept.count, ← tally_one, ← tally_append]
    rfl
  have low := fun fd => tally_nonneg kind ps fd
  unfold Select.exclude
  cases asks : kind pd with
  | false =>
    refine ⟨fun fd => ?_, kept.bit⟩
    simp [count, asks]
  | true =>
    have here : cnt pd.fd = 1 + tally kind ps pd.fd := by simp [count, asks]
    constructor
    · intro fd
      by_cases h : fd = pd.fd
      · subst h; simp [here]
      · simp [h, count]
    · intro fd
      by_cases h : fd = pd.fd
      · subst h
        have := low pd.fd
        have held : set pd.fd = true := (kept.bit pd.fd).mpr (by omega)
        by_cases last : cnt pd.fd - 1 = 0
        · simp [last]
        · simp only [if_true, last, if_false, Function.update_self, held, true_iff]
          omega
      · by_cases last : cnt pd.fd - 1 = 0
        · simpa [last, h] using kept.bit fd
        · simpa [last, h] using kept.bit fd

variable {κ ω : Type} {s : State κ}

structure Counted (s : State κ) (ps : List PollFd) : Prop where
  reads : Kept PollFd.reads s.readSet s.readCnt ps
  writes : Kept PollFd.writes s.writeSet s.writeCnt ps
  excepts : Kept PollFd.excepts s.excepSet s.excepCnt ps

theorem Counted.asks (same : SameAsks ps qs) (counted : Counted s ps) : Counted s qs where
  reads := counted.reads.asks ⟨fun a => a.2 &&& pollIn ≠ 0, fun _ => rfl⟩ same
  writes := counted.writes.asks ⟨fun a => a.2 &&& pollOut ≠ 0, fun _ => rfl⟩ same
  excepts := counted.excepts.asks ⟨fun a => a.2 &&& pollPri ≠ 0, fun _ => rfl⟩ same

theorem Counted.add {pds : List PollFd} (counted : Counted s ps) : Counted (pds.foldl addOne s) (ps ++ pds) := by
  induction pds generalizing s ps with
  | nil => simpa using counted
  | cons pd pds ih =>
    have one : Counted (addOne s pd) (ps ++ [pd]) :=
      ⟨counted.reads.include_, counted.writes.include_, counted.excepts.include_⟩
    have rest := ih one
    rwa [List.append_assoc, List.singleton_append] at rest

theorem Counted.del {pds : List PollFd} (counted : Counted s (pds ++ ps)) : Counted (pollsetDel s pds) ps := by
  unfold pollsetDel
  induction pds generalizing s with
  | nil => exact counted
  | cons pd pds ih =>
    exact ih ⟨counted.reads.exclude, counted.writes.exclude, counted.excepts.exclude⟩

def Allowed (ps : List PollFd) : Prop := ∀ pd ∈ ps, refused pd = false

theorem refused_ask {p q : PollFd} (same : p.ask = q.ask) : refused p = refused q := by
  obtain ⟨fd, events⟩ := Prod.mk.inj same
  simp only [refused, fd, events]

theorem mem_asks (same : SameAsks ps qs) {q : PollFd} (member : q ∈ qs) : ∃ p ∈ ps, p.ask = q.ask :=
  List.mem_map.mp ((List.Perm.mem_iff same).mpr (List.mem_map_of_mem member))

theorem Allowed.asks (same : SameAsks ps qs) (allowed : Allowed ps) : Allowed qs := by
  intro q member
  obtain ⟨p, there, equal⟩ := mem_asks same member
  rw [← refused_ask equal]
  exact allowed p there

structure Bounded (maxfd : Int) (ps : List PollFd) : Prop where
  named : ∀ pd ∈ ps, pd.fd ≤ maxfd
  low : maxfd < fdSetSize

theorem Bounded.asks {maxfd : Int} (same : SameAsks ps qs) (bounded : Bounded maxfd ps) : Bounded maxfd qs where
  named q member := by
    obtain ⟨p, there, equal⟩ := mem_asks same member
    rw [← (Prod.mk.inj equal).1]
    exact bounded.named p there
  low := bounded.low

structure Accounts (s : State κ) (ps : List PollFd) : Prop where
  counted : Counted s ps
  allowed : Allowed ps
  bounded : Bounded s.maxfd ps

structure Walking (s : State κ) (todo : List (List PollFd)) (kept : List PollFd) : Prop where
  counted : Counted s (todo.flatten ++ kept)
  allowed : Allowed (todo.flatten ++ kept)
  bounded : Bounded s.maxfd kept

theorem fd_lt {pd : PollFd} (ok : refused pd = false) : pd.fd < fdSetSize := by
  simp only [refused, Bool.or_eq_false_iff, decide_eq_false_iff_not, Int.not_le] at ok
  exact ok.1.1.2

theorem addOne_max {pds : List PollFd} (allowed : Allowed pds) (bounded : Bounded s.maxfd ps) :
    Bounded (pds.foldl addOne s).maxfd (ps ++ pds) := by
  induction pds generalizing s ps with
  | nil => simpa using bounded
  | cons pd pds ih =>
    have one : Bounded (addOne s pd).maxfd (ps ++ [pd]) := by
      have low := fd_lt (allowed pd (List.mem_cons_self ..))
      have := bounded.low
      constructor
      · intro p member
        simp only [addOne]
        obtain old | new := List.mem_append.mp member
        · have := bounded.named p old
          split <;> omega
        · obtain rfl := List.mem_singleton.mp new
          split <;> omega
      · simp only [addOne]
        split <;> omega
    have rest := ih (fun p member => allowed p (List.mem_cons_of_mem _ member)) one
    rwa [List.append_assoc, List.singleton_append] at rest

theorem pollsetDel_max (s : State κ) (pds : List PollFd) : (pollsetDel s pds).maxfd = s.maxfd := by
  unfold pollsetDel
  induction pds generalizing s with
  | nil => rfl
  | cons pd pds ih => exact ih (delOne s pd)

def larger (walk : Walk) (m : Int) (pd : PollFd) : Int :=
  match walk with
  | .ready _ _ _ => if m < pd.fd then pd.fd else m
  | .badFd => if pd.events = 0 then m else if m < pd.fd then pd.fd else m

theorem pqMaxOsfd_bounded (walk : Walk) {pds : List PollFd} (allowed : Allowed pds) : Bounded (pqMaxOsfd walk pds) pds := by
  -- from a bound m of the entries qs that were looked at before
  have more : ∀ (pds qs : List PollFd) (m : Int), Allowed pds → Bounded m qs →
      Bounded (pds.foldl (larger walk) m) (qs ++ pds) := by
    intro pds
    induction pds with
    | nil => simp
    | cons pd pds ih =>
      intro qs m allowed bounded
      have ok := allowed pd (List.mem_cons_self ..)
      have low := fd_lt ok
      have asks : pd.events ≠ 0 := by
        simp only [refused, Bool.or_eq_false_iff, decide_eq_false_iff_not] at ok
        exact ok.1.2
      have one : Bounded (if m < pd.fd then pd.fd else m) (qs ++ [pd]) := by
        have := bounded.low
        constructor
        · intro p member
          obtain old | new := List.mem_append.mp member
          · have := bounded.named p old
            split <;> omega
          · obtain rfl := List.mem_singleton.mp new
            split <;> omega
        · split <;> omega
      have rest := ih (qs ++ [pd]) _ (fun p member => allowed p (List.mem_cons_of_mem _ member)) one
      rw [List.append_assoc, List.singleton_append] at rest
      cases walk with
      | ready r w e => exact rest
      | badFd =>
        have turn : larger .badFd m pd = if m < pd.fd then pd.fd else m := if_neg asks
        rw [List.foldl_cons, turn]
        exact rest
  have start : Bounded (-1) ([] : List PollFd) := ⟨by simp, by decide⟩
  exact more pds [] (-1) allowed start

theorem stay_bounded {pds : List PollFd} (allowed : Allowed pds) (bounded : Bounded s.maxfd ps) :
    Bounded (stay s pds).maxfd (ps ++ pds) := by
  have new := pqMaxOsfd_bounded s.walk allowed
  have below := bounded.low
  have below' := new.low
  have larger : (stay s pds).maxfd = if s.maxfd < pqMaxOsfd s.walk pds then pqMaxOsfd s.walk pds else s.maxfd := by
    unfold stay
    split <;> rfl
  rw [larger]
  constructor
  · intro p member
    obtain old | here := List.mem_append.mp member
    · have := bounded.named p old
      split <;> omega
    · have := new.named p here
      split <;> omega
  · split <;> omega

theorem stay_counted {pds : List PollFd} (counted : Counted s ps) : Counted (stay s pds) ps := by
  unfold stay
  split
  · exact ⟨counted.reads, counted.writes, counted.excepts⟩
  · exact counted

theorem visit_asks (K : Kernel κ ω) (s : State κ) (pds : List PollFd) :
    (visit K s pds).2.1.map PollFd.ask = pds.map PollFd.ask := by
  simp only [visit, List.map_map]
  rfl

theorem eventSys_walk (K : Kernel κ ω) : StateThreads.Walk (eventSys K) (Walking (κ := κ)) where
  withdrawn evt pds todo kept walking _ := by
    have same := SameAsks.withdrawn (visit_asks K evt pds) todo kept
    refine ⟨(walking.counted.asks same).del, fun pd member => ?_, ?_⟩
    · exact walking.allowed.asks same pd (List.mem_append_right _ member)
    · rw [show (eventSys K).withdraw = pollsetDel from rfl, pollsetDel_max]
      exact walking.bounded
  stayed evt pds todo kept walking _ := by
    have same := SameAsks.stayed (visit_asks K evt pds) todo kept
    have allowed := walking.allowed.asks same
    refine ⟨stay_counted (walking.counted.asks same), allowed, stay_bounded (fun pd member => ?_) walking.bounded⟩
    exact allowed pd (List.mem_append_right _ (List.mem_append_right _ member))

theorem Counted.same {s' : State κ} (counted : Counted s ps) (sets : s'.readSet = s.readSet ∧ s'.writeSet = s.writeSet ∧
    s'.excepSet = s.excepSet) (counts : s'.readCnt = s.readCnt ∧ s'.writeCnt = s.writeCnt ∧ s'.excepCnt = s.excepCnt) :
    Counted s' ps := by
  obtain ⟨r, w, e⟩ := sets
  obtain ⟨rc, wc, ec⟩ := counts
  exact ⟨by rw [r, rc]; exact counted.reads, by rw [w, wc]; exact counted.writes, by rw [e, ec]; exact counted.excepts⟩

theorem wait_kept (K : Kernel κ ω) (min : Option UTime) (ioq : List (List PollFd)) (accounts : Accounts s ioq.flatten) :
    if (wait K s min).2 then Walking (wait K s min).1 ioq [] else Accounts (wait K s min).1 ioq.flatten := by
  have start : Bounded (-1) ([] : List PollFd) := ⟨by simp, by decide⟩
  have entries : ioq.flatten ++ [] = ioq.flatten := List.append_nil _
  unfold wait
  generalize K.select s.kern (s.maxfd + 1) s.readSet s.writeSet s.excepSet (timeval min) = answer
  obtain ⟨kern, answer⟩ := answer
  have still : ∀ s' : State κ, (s'.readSet = s.readSet ∧ s'.writeSet = s.writeSet ∧ s'.excepSet = s.excepSet) →
      (s'.readCnt = s.readCnt ∧ s'.writeCnt = s.writeCnt ∧ s'.excepCnt = s.excepCnt) → s'.maxfd = -1 →
      Walking s' ioq [] := by
    intro s' sets counts max
    refine ⟨?_, ?_, ?_⟩
    · rw [entries]
      exact accounts.counted.same sets counts
    · rw [entries]
      exact accounts.allowed
    · rw [max]
      exact start
  cases answer with
  | ready r w e => exact still _ ⟨rfl, rfl, rfl⟩ ⟨rfl, rfl, rfl⟩ rfl
  | timeout => exact ⟨accounts.counted.same ⟨rfl, rfl, rfl⟩ ⟨rfl, rfl, rfl⟩, accounts.allowed, accounts.bounded⟩
  | failed e =>
    cases e with
    | ebadf => exact still _ ⟨rfl, rfl, rfl⟩ ⟨rfl, rfl, rfl⟩ rfl
    | _ => exact ⟨accounts.counted.same ⟨rfl, rfl, rfl⟩ ⟨rfl, rfl, rfl⟩, accounts.allowed, accounts.bounded⟩

theorem eventSys_keeps (K : Kernel κ ω) : Keeping (eventSys K) (fun _ _ => True) (Accounts (κ := κ)) where
  asks _ _ _ same kept := ⟨kept.counted.asks same, kept.allowed.asks same, kept.bounded.asks same⟩
  initial evt start := by
    rw [show evt = init evt.kern from start]
    have blank : ∀ kind, Kept kind (fun _ => false) (fun _ => 0) [] := fun kind => ⟨fun _ => rfl, by simp⟩
    exact ⟨⟨blank _, blank _, blank _⟩, by simp [Allowed], ⟨by simp, show (-1 : Int) < fdSetSize by decide⟩⟩
  added evt evt' ps pds kept run := by
    simp only [eventSys, pollsetAdd] at run
    split at run
    · cases run
    · rename_i checked
      cases run
      have allowed : Allowed pds := by
        intro pd member
        by_contra bad
        exact checked (List.any_eq_true.mpr ⟨pd, member, by simpa using bad⟩)
      refine ⟨kept.counted.add, fun pd member => ?_, addOne_max allowed kept.bounded⟩
      obtain old | new := List.mem_append.mp member
      · exact kept.allowed pd old
      · exact allowed pd new
  refused evt evt' ps pds error kept run := by
    simp only [eventSys, pollsetAdd] at run
    split at run <;> cases run
    exact kept
  deleted evt ps pds kept := by
    refine ⟨kept.counted.del, fun pd member => kept.allowed pd (List.mem_append_right _ member), ?_⟩
    rw [show (eventSys K).pollsetDel = pollsetDel from rfl, pollsetDel_max]
    exact ⟨fun pd member => kept.bounded.named pd (List.mem_append_right _ member), kept.bounded.low⟩
  dispatched s now time evt vp _ settled idle kept run := by
    simp only [dispatch, Option.bind_eq_bind, Option.bind_eq_some_iff] at run
    obtain ⟨⟨evt₁, found⟩, answer, run⟩ := run
    rw [polled_flatten] at kept
    have after := wait_kept K (minTimeout s.vp) (s.vp.ioQ.map fun t => (s.vp.pollq t).pds) kept
    rw [show wait K s.evt (minTimeout s.vp) = (evt₁, found) from Option.some.inj answer] at after
    cases found with
    | false =>
      cases run
      rw [polled_flatten]
      exact after
    | true =>
      simp only [if_true, Option.bind_eq_some_iff] at run after
      obtain ⟨⟨evt₂, vp₁⟩, walked, run⟩ := run
      cases run
      have done := (eventSys_walk K).dispatched settled idle walked after
      exact ⟨done.counted, done.allowed, done.bounded⟩
  fdNew evt evt' ps fd error kept run := by
    cases run
    exact kept
  outside s change _ kept :=
    ⟨kept.counted.same ⟨rfl, rfl, rfl⟩ ⟨rfl, rfl, rfl⟩, kept.allowed, kept.bounded⟩

end StateThreads.Select
