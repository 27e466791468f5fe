import StateThreads.Event.Bookkeeping
import StateThreads.Event.Poll

/-! The array of the poll event system. It holds the pollfd entries of io_q one pollq after
the other, and the walk over io_q keeps in step with it. -/
namespace StateThreads.Poll

variable {κ ω : Type}

/-- The array after poll has written its results into the entries it was given. -/
def returned (asked : List PollFd) (revents : List (BitVec 16)) : List PollFd :=
  let answered := asked.zipWith (fun pd r => { pd with revents := r }) revents
  answered ++ asked.drop answered.length

theorem returned_asks (asked : List PollFd) (revents : List (BitVec 16)) :
    (returned asked revents).map PollFd.ask = asked.map PollFd.ask := by
  induction asked generalizing revents with
  | nil => simp [returned]
  | cons pd asked ih =>
    cases revents with
    | nil => simp [returned]
    | cons r revents => simpa [returned, PollFd.ask] using ih revents

theorem returned_length (asked : List PollFd) (revents : List (BitVec 16)) :
    (returned asked revents).length = asked.length := by
  have same := congrArg List.length (returned_asks asked revents)
  simpa using same

def slices : List (List PollFd) → List PollFd → List (List PollFd)
  | [], _ => []
  | pds :: todo, arr => arr.take pds.length :: slices todo (arr.drop pds.length)

theorem slices_append (front back : List (List PollFd)) (pds : List PollFd) (arr : List PollFd) :
    slices (front ++ pds :: back) arr = slices front arr ++ (arr.drop front.flatten.length).take pds.length ::
      slices back (arr.drop (front.flatten.length + pds.length)) := by
  induction front generalizing arr with
  | nil => simp [slices]
  | cons p front ih => simp [slices, ih, Nat.add_assoc]

theorem slices_length (todo : List (List PollFd)) (arr : List PollFd) : (slices todo arr).length = todo.length := by
  induction todo generalizing arr with
  | nil => rfl
  | cons pds todo ih => simp [slices, ih]

def finding (pds slice : List PollFd) : List PollFd × Bool :=
  let notify := slice.any fun pd => pd.revents ≠ 0
  (if notify then slice else pds, notify)

theorem finding_notify (pds slice : List PollFd) : (finding pds slice).2 = true ↔ ∃ pd ∈ slice, pd.revents ≠ 0 := by
  simp [finding]

theorem finding_result (pds slice : List PollFd) :
    (finding pds slice).1 = if (finding pds slice).2 then slice else pds := rfl

theorem visitedOne_array (K : Kernel κ ω) (s : State κ) (pds : List PollFd) :
    (visitedOne (eventSys K) s pds).pollfds = s.pollfds ∧
      (visitedOne (eventSys K) s pds).cursor = s.cursor + pds.length := by
  unfold visitedOne
  split <;> exact ⟨rfl, rfl⟩

theorem findings_slices (K : Kernel κ ω) (todo : List (List PollFd)) (s : State κ) :
    findings (eventSys K) todo s = List.zipWith finding todo (slices todo (s.pollfds.drop s.cursor)) := by
  induction todo generalizing s with
  | nil => rfl
  | cons pds todo ih =>
    obtain ⟨array, cursor⟩ := visitedOne_array K s pds
    rw [findings_cons, ih, array, cursor, slices, List.zipWith_cons_cons, List.drop_drop]
    rfl

structure Accounts (s : State κ) (ps : List PollFd) : Prop where
  count : s.fdcnt = toInt32 ps.length
  size : IsInt s.pollfdsSize

/-- During the walk, which is only made once all entries are counted: those still to be
visited lie in the array from the cursor on. -/
structure Walking (s : State κ) (todo : List (List PollFd)) (kept : List PollFd) : Prop where
  count : s.fdcnt = (todo.flatten ++ kept).length
  int : IsInt s.fdcnt
  room : todo.flatten.length ≤ (s.pollfds.drop s.cursor).length
  size : IsInt s.pollfdsSize

theorem Accounts.int {s : State κ} {ps : List PollFd} (accounts : Accounts s ps) : IsInt s.fdcnt := by
  rw [accounts.count]
  exact toInt32_int _

theorem Accounts.count_iff {s : State κ} {ps : List PollFd} (accounts : Accounts s ps) :
    s.fdcnt = ps.length ↔ IsInt ps.length := by
  rw [accounts.count]
  exact toInt32_eq_iff _

theorem visit_length {s : State κ} {pds : List PollFd} (room : pds.length ≤ (s.pollfds.drop s.cursor).length) :
    (visit s pds).2.1.length = pds.length := by
  simp only [visit]
  split
  · rw [List.length_take]
    omega
  · rfl

theorem visit_walking {s : State κ} {pds : List PollFd} {todo : List (List PollFd)} {kept : List PollFd}
    (walking : Walking s (pds :: todo) kept) : (visit s pds).2.1.length = pds.length ∧
      todo.flatten.length ≤ ((visit s pds).1.pollfds.drop (visit s pds).1.cursor).length := by
  have room := walking.room
  simp only [List.flatten_cons, List.length_append] at room
  refine ⟨visit_length (by omega), ?_⟩
  simp only [visit, List.length_drop] at room ⊢
  omega

theorem eventSys_walk (K : Kernel κ ω) : Walk (eventSys K) (Walking (κ := κ)) where
  withdrawn s pds todo kept walking _ := by
    obtain ⟨seen, room⟩ := visit_walking walking
    obtain ⟨count, int, -, size⟩ := walking
    simp only [List.flatten_cons, List.length_append] at count
    -- what is left to count is not negative, and less than before
    have less : toInt32 (s.fdcnt - pds.length) = s.fdcnt - pds.length := toInt32_eq (by unfold IsInt at int ⊢; omega)
    refine ⟨?_, ?_, room, size⟩
    · simp only [eventSys, pollsetDel, seen, List.length_append]
      simp only [visit, less]
      omega
    · simp only [eventSys, pollsetDel]
      exact toInt32_int _
  stayed s pds todo kept walking _ := by
    obtain ⟨seen, room⟩ := visit_walking walking
    obtain ⟨count, int, -, size⟩ := walking
    simp only [List.flatten_cons, List.length_append] at count
    refine ⟨?_, int, room, size⟩
    simp only [eventSys, seen, List.length_append]
    simp only [visit]
    omega

/-- The size of the array when the entries are gathered. -/
def room (s : State κ) : Int := if s.pollfdsSize < s.fdcnt then toInt32 (s.fdcnt + 10) else s.pollfdsSize

theorem reserve_room {K : Kernel κ ω} {s s₁ : State κ} (run : reserve K s = some s₁) :
    s₁.fdcnt = s.fdcnt ∧ s₁.pollfdsSize = room s := by
  unfold reserve at run
  unfold room
  split at run
  · rename_i small
    dsimp only at run
    split at run
    · cases run
      rw [if_pos small]
      exact ⟨rfl, rfl⟩
    · cases run
  · rename_i large
    cases run
    rw [if_neg large]
    exact ⟨rfl, rfl⟩

theorem room_int {s : State κ} (size : IsInt s.pollfdsSize) : IsInt (room s) := by
  unfold room
  split
  · exact toInt32_int _
  · exact size

theorem room_iff {s : State κ} (int : IsInt s.fdcnt) :
    s.fdcnt ≤ room s ↔ (s.pollfdsSize < s.fdcnt → IsInt (s.fdcnt + 10)) := by
  unfold room
  split
  · rename_i small
    constructor
    · intro fits _
      unfold IsInt at int ⊢
      unfold toInt32 at fits
      rw [Int.bmod_def] at fits
      split at fits <;> omega
    · intro fits
      rw [toInt32_eq (fits small)]
      omega
  · rename_i large
    exact ⟨fun _ small => absurd small large, fun _ => by omega⟩

/-- A dispatch that does not fail has counted right, since the entries fit into the array. -/
theorem wait_counted {K : Kernel κ ω} {s : State κ} {ioq : List (List PollFd)} {min : Option UTime}
    {answer : State κ × Bool} (accounts : Accounts s ioq.flatten) (run : wait K s min ioq = some answer) :
    s.fdcnt = ioq.flatten.length ∧ ∃ s₁, reserve K s = some s₁ ∧ (ioq.flatten.length : Int) ≤ s₁.pollfdsSize := by
  unfold wait at run
  by_cases negative : s.fdcnt < 0
  · rw [if_pos negative] at run
    cases run
  · rw [if_neg negative] at run
    obtain ⟨s₁, reserved, run⟩ := Option.bind_eq_some_iff.mp run
    dsimp only at run
    split at run
    · cases run
    · rename_i fits
      have int := room_int accounts.size
      rw [← (reserve_room reserved).2] at int
      refine ⟨accounts.count_iff.mpr ?_, s₁, reserved, by omega⟩
      unfold IsInt at int ⊢
      omega

theorem wait_spec {K : Kernel κ ω} {s s₁ : State κ} {ioq : List (List PollFd)} (count : s.fdcnt = ioq.flatten.length)
    (reserved : reserve K s = some s₁) (fits : (ioq.flatten.length : Int) ≤ s₁.pollfdsSize) (min : Option UTime) :
    ∃ kern nfd revents, K.poll s₁.kern ioq.flatten (msTimeout min) = (kern, nfd, revents) ∧
      wait K s min ioq = some ({ s₁ with
        kern := kern, cursor := 0
        pollfds := returned ioq.flatten revents ++ s₁.pollfds.drop ioq.flatten.length }, decide (0 < nfd)) := by
  have asked : (ioq.flatten ++ s₁.pollfds.drop ioq.flatten.length).take s₁.fdcnt.toNat = ioq.flatten := by
    rw [(reserve_room reserved).1, count, Int.toNat_natCast, List.take_left]
  refine ⟨_, _, _, rfl, ?_⟩
  rw [wait, if_neg (by omega), reserved, Option.bind_eq_bind, Option.bind_some]
  dsimp only
  rw [if_neg (by omega), asked]
  congr 3
  rw [returned, List.drop_append_of_le_length (by simp), List.append_assoc]

theorem Walking.gathered {s s₁ : State κ} {ioq : List (List PollFd)} (accounts : Accounts s ioq.flatten)
    (count : s.fdcnt = ioq.flatten.length) {K : Kernel κ ω} (reserved : reserve K s = some s₁) (kern : κ)
    (revents : List (BitVec 16)) (junk : List PollFd) :
    Walking { s₁ with kern := kern, cursor := 0, pollfds := returned ioq.flatten revents ++ junk } ioq [] := by
  obtain ⟨same, size⟩ := reserve_room reserved
  refine ⟨?_, ?_, by simp [returned_length], ?_⟩
  · rw [List.append_nil]
    exact same.trans count
  · exact same ▸ accounts.int
  · exact size ▸ room_int accounts.size

theorem Walking.accounts {s : State κ} {kept : List PollFd} (walking : Walking s [] kept) : Accounts s kept := by
  have count : s.fdcnt = kept.length := walking.count
  refine ⟨?_, walking.size⟩
  rw [← count, toInt32_eq walking.int]

theorem eventSys_keeps (K : Kernel κ ω) : Keeping (eventSys K) (fun _ _ => True) (Accounts (κ := κ)) where
  asks evt ps qs same kept := by
    have length := List.Perm.length_eq same
    simp only [List.length_map] at length
    exact ⟨by rw [← length]; exact kept.count, kept.size⟩
  initial evt start := by
    obtain ⟨-, size, count⟩ := start
    exact ⟨by rw [count]; rfl, by rw [size]; decide⟩
  added evt evt' ps pds kept run := by
    simp only [eventSys, pollsetAdd] at run
    split at run
    · cases run
    · cases run
      refine ⟨?_, kept.size⟩
      simp [kept.count, toInt32_add]
  refused evt evt' ps pds error kept run := by
    simp only [eventSys, pollsetAdd] at run
    split at run <;> cases run
    exact kept
  deleted evt ps pds kept := by
    refine ⟨?_, kept.size⟩
    simp only [eventSys, pollsetDel, kept.count, toInt32_sub, List.length_append]
    congr 1
    omega
  dispatched s now time evt vp _ settled idle kept run := by
    simp only [dispatch, Option.bind_eq_bind, Option.bind_eq_some_iff] at run
    obtain ⟨⟨evt₁, found⟩, answer, run⟩ := run
    rw [polled_flatten] at kept
    obtain ⟨count, s₁, reserved, fits⟩ := wait_counted kept answer
    obtain ⟨kern, nfd, revents, -, waited⟩ := wait_spec count reserved fits (minTimeout s.vp)
    obtain ⟨rfl, rfl⟩ := Prod.mk.inj (Option.some.inj (answer.symm.trans waited))
    have start := Walking.gathered kept count reserved kern revents (s₁.pollfds.drop
      (s.vp.ioQ.map fun t => (s.vp.pollq t).pds).flatten.length)
    cases found : decide (0 < nfd) with
    | false =>
      rw [found] at run
      cases run
      rw [polled_flatten]
      exact ⟨(reserve_room reserved).1.trans kept.count, start.size⟩
    | true =>
      rw [found] at run
      simp only [if_true, Option.bind_eq_some_iff] at run
      obtain ⟨⟨evt₂, vp₁⟩, walked, run⟩ := run
      cases run
      exact ((eventSys_walk K).dispatched settled idle walked start).accounts
  fdNew evt evt' ps fd error kept run := by
    cases run
    exact kept
  outside s change _ kept := ⟨kept.count, kept.size⟩

end StateThreads.Poll
