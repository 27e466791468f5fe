import StateThreads.Contract.Resid

/-! The two ways to write everything. st_writev counts the bytes that are left; the resid
functions count the vectors. -/
namespace StateThreads
open Transfer

def EndsFull (iov : List Iovec) : Prop := ∀ v, iov.getLast? = some v → 0 < v.len

instance (iov : List Iovec) : Decidable (EndsFull iov) :=
  match last : iov.getLast? with
  | none => isTrue (by simp [EndsFull, last])
  | some v => decidable_of_iff (0 < v.len) (by simp [EndsFull, last])

theorem EndsFull.drop {iov : List Iovec} (ends : EndsFull iov) (k : Nat) : EndsFull (iov.drop k) := by
  intro v last
  rw [List.getLast?_drop] at last
  split at last
  · cases last
  · exact ends v last

theorem EndsFull.cut {a b : List Iovec} (ends : EndsFull a) (cut : CutTo a b) : EndsFull b := by
  cases cut with
  | same => exact ends
  | @cut v d later inside =>
    cases later with
    | nil =>
      intro w last
      have same : v.cut d = w := by simpa using last
      rw [← same]
      exact Nat.sub_pos_of_lt inside
    | cons w later => exact fun v last => ends v (by simpa using last)

theorem EndsFull.nil {iov : List Iovec} (ends : EndsFull iov) : spans iov = [] ↔ iov = [] := by
  constructor
  · intro none_
    by_contra some_
    have last := ends _ (List.getLast?_eq_some_getLast some_)
    have bytes : (iov.getLast some_).span = [] := by
      rw [spans, List.flatMap_eq_nil_iff] at none_
      exact none_ _ (List.getLast_mem some_)
    have empty := congrArg List.length bytes
    rw [Iovec.span_length, List.length_nil] at empty
    omega
  · rintro rfl
    rfl

def Resid.bytes (x : Option Errno × Resid) : Option Errno × List Nat := (x.1, spans x.2.rest)

/-- Unless the array ends with an empty vector, counting vectors is counting bytes. -/
theorem residLoop_drain (eof : Bool) (calls : List Call) (polls : List Polled) {r : Resid} (sized : r.Sized)
    (ends : EndsFull r.rest) :
    (residLoop eof calls polls r).map Resid.bytes = drain eof .eintr calls polls (spans r.rest) := by
  induction calls generalizing polls r with
  | nil =>
    unfold residLoop
    by_cases none_ : r.rest = []
    · rw [if_neg (sized.empty.mpr none_), Run.map_finish, Resid.bytes, none_]
      rfl
    · rw [if_pos (not_not.mp fun out => none_ (sized.empty.mp out)), Run.map_pending, drain_start]
      exact fun all => none_ (ends.nil.mp all)
  | cons call calls ih =>
    unfold residLoop
    by_cases none_ : r.rest = []
    · rw [if_neg (sized.empty.mpr none_), Run.map_finish, Resid.bytes, none_]
      rfl
    have some_ : spans r.rest ≠ [] := fun all => none_ (ends.nil.mp all)
    rw [if_pos (not_not.mp fun out => none_ (sized.empty.mp out)), sized.offered none_]
    cases call with
    | failed e =>
      rw [drain_failed some_]
      dsimp only
      rw [Run.map_after]
      congr 1
      split
      · exact ih polls sized ends
      · rfl
    | notReady =>
      rw [drain_notReady some_]
      dsimp only
      rw [Run.map_after, map_await]
      congr 1
      exact await_congr (fun e => rfl) fun polls => ih polls sized ends
    | count n =>
      rw [drain_count some_]
      dsimp only
      rw [Run.map_after, ← List.take_eq_take_min]
      congr 1
      have positive := List.length_pos_of_ne_nil some_
      by_cases stop : eof = true ∧ min n (spans r.rest).length = 0
      · have zero : n = 0 := by omega
        rw [if_pos stop, zero, List.drop_zero, if_neg some_, if_pos ⟨stop.1, rfl⟩]
        rfl
      obtain ⟨r', consumed, spec⟩ := sized.consume none_ (Nat.min_le_right n (spans r.rest).length)
      have ends' : EndsFull r'.rest := by
        obtain ⟨k, -, -, cut⟩ := spec.vectors
        exact (ends.drop k).cut cut
      have bytes : (spans r.rest).drop n = spans r'.rest := by
        rw [spec.bytes, List.drop_eq_drop_min]
      have go : ¬(eof = true ∧ n = 0) := fun both => stop ⟨both.1, by omega⟩
      rw [if_neg stop, consumed, bytes, if_neg go]
      dsimp only
      by_cases done : r'.rest = []
      · rw [if_pos (ends'.nil.mpr done), if_pos (spec.sized.done.mpr done), Run.map_finish, Resid.bytes, done]
        rfl
      · rw [if_neg (fun all => done (ends'.nil.mp all)), if_neg (fun all => done (spec.sized.done.mp all)), map_await]
        exact await_congr (fun e => rfl) fun polls => ih polls spec.sized ends'

theorem ssize_small {n : Nat} (small : n < 2 ^ 63) : ssize n = n := if_pos small

theorem stWrite_drain (calls : List Call) (polls : List Polled) {v : Iovec} (full : 0 < v.len) (small : v.len < 2 ^ 63) :
    stWrite calls polls v.base v.len =
      (drain false .eintr calls polls v.span).map fun x => if x.1.isNone then (v.len : Int) else -1 := by
  have ends : EndsFull [v] := by
    intro w last
    cases last
    exact full
  have bytes : spans [v] = v.span := List.append_nil _
  have drained := residLoop_drain false calls polls (r := .start [v]) rfl ends
  rw [← stWritevResid_loop] at drained
  rw [Resid.start, bytes] at drained
  have leaves : Leaves [v] (stWritevResid calls polls (.start [v])) := by
    rw [stWritevResid_loop]
    exact residLoop_leaves false [v] calls polls
  rw [← drained]
  unfold stWrite stWriteResid
  rw [Run.map_map, Run.map_map]
  apply Run.map_congr
  rintro ⟨e, r⟩ status
  cases e with
  | some e => rfl
  | none =>
    have residue := leaves.residue none r status
    have ended : (drain false .eintr calls polls v.span).status = .returned (none, spans r.rest) := by
      rw [← drained]
      show (stWritevResid calls polls (.start [v])).status.map Resid.bytes = _
      rw [status]
      rfl
    have none_ : spans r.rest = [] := by
      obtain none_ | eof := (drain_drained calls polls v.span).ends _ ended
      · exact none_
      · cases eof
    have whole : (stWritevResid calls polls (.start [v])).moved.length = v.len := by
      have all := congrArg List.length residue.bytes
      rw [none_, List.append_nil, bytes, Iovec.span_length] at all
      exact all
    show ssize (v.len - r.left) = v.len
    rw [residue.left, whole, Nat.sub_self, Nat.sub_zero, ssize_small small]

/- The variables of st_writev. -/

structure Writev.Kept (w w' : Writev) : Prop where
  iov : w'.iov = w.iov
  tmpIov : w'.tmpIov = w.tmpIov
  nleft : w'.nleft = w.nleft
  locals : w'.localIov.length = w.localIov.length
  room : w'.cells.length = w.cells.length

theorem Writev.Kept.trans {a b c : Writev} (first : a.Kept b) (second : b.Kept c) : a.Kept c where
  iov := second.iov.trans first.iov
  tmpIov := second.tmpIov.trans first.tmpIov
  nleft := second.nleft.trans first.nleft
  locals := second.locals.trans first.locals
  room := second.room.trans first.room

theorem Writev.store_spec {w : Writev} {i : Nat} (v : Iovec) (own : w.tmpIov ≠ .caller) (fits : i < w.cells.length) :
    ∃ w', w.store i v = some w' ∧ w.Kept w' ∧ w'.cells = w.cells.set i v ∧ w'.iovCnt = w.iovCnt := by
  obtain ⟨iov, tmpIov, localIov, heapIov, iovCnt, nleft⟩ := w
  unfold Writev.store
  rw [if_pos fits]
  cases tmpIov with
  | caller => exact absurd rfl own
  | local_ => exact ⟨_, rfl, ⟨rfl, rfl, rfl, List.length_set, List.length_set⟩, rfl, rfl⟩
  | heap => exact ⟨_, rfl, ⟨rfl, rfl, rfl, rfl, List.length_set⟩, rfl, rfl⟩

theorem copyRest_spec {w : Writev} {todo index : Nat} (own : w.tmpIov ≠ .caller) (ends : index + todo = w.iov.length)
    (fits : w.iovCnt + todo ≤ w.cells.length) :
    ∃ w', copyRest todo index w = some w' ∧ w.Kept w' ∧ w'.iovCnt = w.iovCnt + todo ∧
      w'.cells.take w'.iovCnt = w.cells.take w.iovCnt ++ w.iov.drop index := by
  induction todo generalizing index w with
  | zero =>
    refine ⟨w, rfl, ⟨rfl, rfl, rfl, rfl, rfl⟩, rfl, ?_⟩
    rw [List.drop_eq_nil_of_le (by omega), List.append_nil]
  | succ todo ih =>
    have inside : index < w.iov.length := by omega
    obtain ⟨w₁, stored, kept, cells, count⟩ := w.store_spec (i := w.iovCnt) w.iov[index] own (by omega)
    have ends' : index + 1 + todo = w₁.iov.length := by
      rw [kept.iov]
      omega
    have fits' : w₁.iovCnt + 1 + todo ≤ w₁.cells.length := by
      rw [kept.room]
      omega
    obtain ⟨w', copied, kept', count', cells'⟩ := ih (w := { w₁ with iovCnt := w₁.iovCnt + 1 })
      (by rw [kept.tmpIov]; exact own) ends' fits'
    refine ⟨w', ?_, kept.trans ⟨kept'.iov, kept'.tmpIov, kept'.nleft, kept'.locals, kept'.room⟩, ?_, ?_⟩
    · simp only [copyRest, List.getElem?_eq_getElem inside, Option.bind_eq_bind, Option.bind_some, stored]
      exact copied
    · have count'' : w'.iovCnt = w₁.iovCnt + 1 + todo := count'
      omega
    · rw [cells']
      show w₁.cells.take (w₁.iovCnt + 1) ++ w₁.iov.drop (index + 1) = _
      have next : (w.cells.set w.iovCnt w.iov[index])[w.iovCnt]? = some w.iov[index] :=
        List.getElem?_set_self (by omega)
      rw [cells, count, kept.iov, List.drop_eq_getElem_cons inside, List.take_add_one, next,
        List.take_set_of_le (Nat.le_refl _), List.append_assoc]
      rfl

theorem nextUnwritten_spec {iov : List Iovec} {n : Nat} (inside : n < (spans iov).length) (start : Nat) :
    ∃ index m v, nextUnwritten iov n start = some (start + index, m) ∧ iov[index]? = some v ∧ m < v.len ∧
      (spans (iov.take index)).length + m = n := by
  induction iov generalizing n start with
  | nil => simp [spans] at inside
  | cons v iov ih =>
    unfold nextUnwritten
    rw [spans_cons, List.length_append, Iovec.span_length] at inside
    by_cases covers : v.len ≤ n
    · rw [if_pos covers]
      obtain ⟨index, m, u, found, here, within, sum⟩ := ih (n := n - v.len) (by omega) (start + 1)
      refine ⟨index + 1, m, u, ?_, by simpa using here, within, ?_⟩
      · rw [found]
        congr 2
        omega
      · rw [List.take_succ_cons, spans_cons, List.length_append, Iovec.span_length]
        omega
    · rw [if_neg covers]
      exact ⟨0, n, v, rfl, rfl, by omega, by simp [spans]⟩

theorem spans_from {iov : List Iovec} {index m : Nat} {v : Iovec} (here : iov[index]? = some v) (within : m < v.len) :
    spans (v.cut m :: iov.drop (index + 1)) = (spans iov).drop ((spans (iov.take index)).length + m) := by
  have split : spans iov = spans (iov.take index) ++ (v.span ++ spans (iov.drop (index + 1))) := by
    obtain ⟨inside, at_⟩ := List.getElem?_eq_some_iff.mp here
    rw [← spans_cons, ← at_, ← List.drop_eq_getElem_cons inside, spans_take_drop]
  have rest : (v.span ++ spans (iov.drop (index + 1))).drop m = v.span.drop m ++ spans (iov.drop (index + 1)) := by
    apply List.drop_append_of_le_length
    rw [Iovec.span_length]
    omega
  rw [split, List.drop_length_add_append, rest, spans_cons, Iovec.span_cut]

theorem Writev.refill_spec {w : Writev} {index : Nat} {v : Iovec} (m : Nat) (own : w.tmpIov ≠ .caller)
    (here : w.iov[index]? = some v) (fits : w.iov.length - index ≤ w.cells.length) :
    ∃ w', w.refill index m = some w' ∧ w.Kept w' ∧ w'.iovCnt ≤ w'.cells.length ∧
      w'.cells.take w'.iovCnt = v.cut m :: w.iov.drop (index + 1) := by
  obtain ⟨inside, -⟩ := List.getElem?_eq_some_iff.mp here
  obtain ⟨w₁, stored, kept, cells, -⟩ := w.store_spec (i := 0) (v.cut m) own (by omega)
  have room := kept.room
  have ends : index + 1 + (w₁.iov.length - (index + 1)) = w₁.iov.length := by
    rw [kept.iov]
    omega
  have fits' : 1 + (w₁.iov.length - (index + 1)) ≤ w₁.cells.length := by
    rw [kept.iov]
    omega
  obtain ⟨w', copied, kept', count, cells'⟩ := copyRest_spec (w := { w₁ with iovCnt := 1 })
    (by rw [kept.tmpIov]; exact own) ends fits'
  have count' : w'.iovCnt = 1 + (w₁.iov.length - (index + 1)) := count
  have room' : w'.cells.length = w₁.cells.length := kept'.room
  refine ⟨w', ?_, kept.trans ⟨kept'.iov, kept'.tmpIov, kept'.nleft, kept'.locals, kept'.room⟩, ?_, ?_⟩
  · simp only [Writev.refill, here, Option.bind_eq_bind, Option.bind_some]
    unfold Iovec.cut at stored
    rw [stored]
    exact copied
  · rw [kept.iov] at count'
    omega
  · rw [cells']
    show w₁.cells.take 1 ++ w₁.iov.drop (index + 1) = _
    rw [cells, kept.iov]
    cases whole : w.cells with
    | nil =>
      rw [whole, List.length_nil] at fits
      omega
    | cons u rest => rfl

/-- Where st_writev stands when the kernel has accepted the first gone bytes. -/
structure Writing (iov : List Iovec) (gone : Nat) (w : Writev) : Prop where
  caller : w.iov = iov
  locals : w.localIov.length = localMaxiov
  left : w.nleft + gone = (spans iov).length
  within : w.iovCnt ≤ w.cells.length
  bytes : spans (w.cells.take w.iovCnt) = (spans iov).drop gone
  room : w.tmpIov ≠ .caller → ∃ index, (spans (iov.take index)).length ≤ gone ∧ iov.length - index ≤ w.cells.length

/-- The array chosen at the first short write has room for what is left at any later one. -/
theorem Writing.choose {iov : List Iovec} {gone n : Nat} {w : Writev} (writing : Writing iov gone w) (nleft : Nat)
    {index m : Nat} {v : Iovec} (here : iov[index]? = some v) (within : m < v.len)
    (sum : (spans (iov.take index)).length + m = gone + n) (calloc : Bool) :
    Writev.choose { w with nleft := nleft } calloc index = none ∨
      ∃ w', Writev.choose { w with nleft := nleft } calloc index = some w' ∧ w'.tmpIov ≠ .caller ∧ w'.iov = iov ∧
        w'.localIov.length = localMaxiov ∧ w'.nleft = nleft ∧ iov.length - index ≤ w'.cells.length := by
  have iov_ := writing.caller
  have locals := writing.locals
  unfold Writev.choose
  by_cases first : w.tmpIov = .caller
  · rw [if_pos first]
    dsimp only
    by_cases few : w.iov.length - index ≤ localMaxiov
    · rw [if_pos few]
      refine .inr ⟨_, rfl, by simp, iov_, locals, rfl, ?_⟩
      show iov.length - index ≤ w.localIov.length
      rw [locals, ← iov_]
      exact few
    · rw [if_neg few]
      cases calloc with
      | false => exact .inl rfl
      | true =>
        refine .inr ⟨_, rfl, by simp, iov_, locals, rfl, ?_⟩
        show iov.length - index ≤ (List.replicate (w.iov.length - index) _).length
        rw [List.length_replicate, iov_]
  · rw [if_neg first]
    refine .inr ⟨_, rfl, first, iov_, locals, rfl, ?_⟩
    show iov.length - index ≤ w.cells.length
    obtain ⟨before, gone_, fits⟩ := writing.room first
    -- an index below the one of the first short write would have more bytes before it
    have later : before ≤ index := by
      by_contra earlier
      obtain ⟨inside, at_⟩ := List.getElem?_eq_some_iff.mp here
      have front : (spans (iov.take (index + 1))).length = (spans (iov.take index)).length + v.len := by
        rw [List.take_add_one, here, spans_append, List.length_append]
        simp [spans, Iovec.span_length]
      have most : (spans (iov.take (index + 1))).length ≤ (spans (iov.take before)).length := by
        have split := congrArg List.length (spans_take_drop (iov.take before) (index + 1))
        rw [List.take_take, Nat.min_eq_left (by omega), List.length_append] at split
        omega
      omega
    omega

theorem Writing.more {iov : List Iovec} {gone : Nat} {w : Writev} (writing : Writing iov gone w) (more : w.nleft ≠ 0) :
    (spans iov).drop gone ≠ [] := by
  intro none_
  have empty := congrArg List.length none_
  have left := writing.left
  rw [List.length_drop, List.length_nil] at empty
  omega

theorem Writing.short {iov : List Iovec} {gone n : Nat} {w : Writev} (writing : Writing iov gone w) (less : n < w.nleft)
    (calloc : Bool) :
    ∃ index m, nextUnwritten iov ((spans iov).length - (w.nleft - n)) 0 = some (index, m) ∧
      (Writev.choose { w with nleft := w.nleft - n } calloc index = none ∨
        ∃ w₁ w₂, Writev.choose { w with nleft := w.nleft - n } calloc index = some w₁ ∧
          w₁.refill index m = some w₂ ∧ Writing iov (gone + n) w₂) := by
  have left := writing.left
  have written : (spans iov).length - (w.nleft - n) = gone + n := by omega
  rw [written]
  have inside : gone + n < (spans iov).length := by omega
  obtain ⟨index, m, v, found, here, within, sum⟩ := nextUnwritten_spec inside 0
  rw [Nat.zero_add] at found
  refine ⟨index, m, found, ?_⟩
  obtain none_ | ⟨w₁, chosen, own, caller, locals, nleft, fits⟩ := writing.choose (w.nleft - n) here within sum calloc
  · exact .inl none_
  obtain ⟨w₂, filled, kept, count, cells⟩ := w₁.refill_spec m own (by rw [caller]; exact here) (by rw [caller]; exact fits)
  refine .inr ⟨w₁, w₂, chosen, filled, ?_⟩
  constructor
  case caller => rw [kept.iov, caller]
  case locals => rw [kept.locals, locals]
  case left =>
    rw [kept.nleft, nleft]
    omega
  case within => exact count
  case bytes => rw [cells, caller, spans_from here within, sum]
  case room =>
    intro _
    refine ⟨index, by omega, ?_⟩
    rw [kept.room]
    exact fits

section
variable {iov : List Iovec} (small : (spans iov).length < 2 ^ 63) (calloc : Bool) (calls : List Call) (polls : List Polled)
variable {gone : Nat} {w : Writev} (writing : Writing iov gone w)
include small writing

theorem stWritevLoop_done (done : w.nleft = 0) :
    Follows ((spans iov).drop gone) (((spans iov).length : Int), iov) (-1, iov)
      (drain false .eintr calls polls ((spans iov).drop gone))
      (stWritevLoop calloc (spans iov).length calls polls w) := by
  have left := writing.left
  unfold stWritevLoop
  rw [if_pos done, List.drop_eq_nil_of_le (by omega), drain_nil, ssize_small small, writing.caller]
  exact .finish rfl

theorem stWritevLoop_one (more : w.nleft ≠ 0) (one : w.iovCnt = 1) :
    Follows ((spans iov).drop gone) (((spans iov).length : Int), iov) (-1, iov)
      (drain false .eintr calls polls ((spans iov).drop gone))
      (stWritevLoop calloc (spans iov).length calls polls w) := by
  have left := writing.left
  have within := writing.within
  have bytes := writing.bytes
  unfold stWritevLoop
  rw [if_neg more, if_pos one]
  cases cells : w.cells with
  | nil =>
    rw [one, cells, List.length_nil] at within
    omega
  | cons v rest =>
    rw [one, cells, List.take_succ_cons, List.take_zero] at bytes
    have only : v.span = (spans iov).drop gone := by
      rw [← bytes]
      exact (List.append_nil _).symm
    have len : v.len = w.nleft := by
      have same := congrArg List.length only
      rw [Iovec.span_length, List.length_drop] at same
      omega
    dsimp only
    rw [← len, ← only, stWrite_drain calls polls (v := v) (by omega) (by omega), Run.map_map, writing.caller,
      ssize_small small, ssize_small (by omega)]
    apply Follows.same
    apply Run.map_congr
    rintro ⟨e, rest⟩ -
    cases e with
    | none => simp
    | some e =>
      have apart : ¬(-1 : Int) = v.len := by omega
      simp [apart]

theorem stWritevLoop_follows :
    Follows ((spans iov).drop gone) (((spans iov).length : Int), iov) (-1, iov)
      (drain false .eintr calls polls ((spans iov).drop gone))
      (stWritevLoop calloc (spans iov).length calls polls w) := by
  induction calls generalizing polls gone w with
  | nil =>
    by_cases done : w.nleft = 0
    · exact stWritevLoop_done small calloc [] polls writing done
    by_cases one : w.iovCnt = 1
    · exact stWritevLoop_one small calloc [] polls writing done one
    unfold stWritevLoop
    rw [if_neg done, if_neg one, drain_start (writing.more done)]
    exact .pending
  | cons call calls ih =>
    by_cases done : w.nleft = 0
    · exact stWritevLoop_done small calloc (call :: calls) polls writing done
    by_cases one : w.iovCnt = 1
    · exact stWritevLoop_one small calloc (call :: calls) polls writing done one
    have left := writing.left
    have iov_ := writing.caller
    unfold stWritevLoop
    rw [if_neg done, if_neg one]
    dsimp only
    rw [if_neg (Nat.not_lt.mpr writing.within), writing.bytes, iov_]
    have some_ := writing.more done
    cases call with
    | failed e =>
      rw [drain_failed some_]
      refine .after rfl (List.nil_append _) ?_
      split
      · exact ih polls writing
      · exact .finish rfl
    | notReady =>
      rw [drain_notReady some_]
      refine .after rfl (List.nil_append _) ?_
      exact .await polls fun polls => ih polls writing
    | count n =>
      rw [drain_count some_]
      dsimp only
      rw [← List.take_eq_take_min]
      refine .after rfl (List.take_append_drop n _) ?_
      have length : ((spans iov).drop gone).length = w.nleft := by
        rw [List.length_drop]
        omega
      rw [length]
      by_cases all : min n w.nleft = w.nleft
      · rw [if_pos all, if_pos (List.drop_eq_nil_of_le (by omega)), ssize_small small]
        exact .finish rfl
      have less : n < w.nleft := by omega
      rw [if_neg all, Nat.min_eq_left (by omega)]
      have rest : ((spans iov).drop gone).drop n ≠ [] := by
        intro none_
        have empty := congrArg List.length none_
        rw [List.length_drop, length, List.length_nil] at empty
        omega
      rw [if_neg rest, if_neg (by simp), List.drop_drop]
      obtain ⟨index, m, found, none_ | ⟨w₁, w₂, chosen, filled, writing'⟩⟩ := writing.short less calloc
      · rw [List.drop_drop] at rest
        rw [iov_] at none_
        rw [found]
        dsimp only
        rw [none_]
        exact .short _ rest (List.nil_append _) rfl
      · rw [iov_] at chosen
        rw [found]
        dsimp only
        rw [chosen]
        dsimp only
        rw [filled]
        dsimp only
        rw [writing'.caller]
        exact .await polls fun polls => ih polls writing'

end

theorem Writing.start (iov localIov : List Iovec) (locals : localIov.length = localMaxiov) :
    Writing iov 0 ⟨iov, .caller, localIov, [], iov.length, (spans iov).length⟩ where
  caller := rfl
  locals := locals
  left := rfl
  within := Nat.le_refl _
  bytes := by
    show spans (iov.take iov.length) = _
    rw [List.take_length, List.drop_zero]
  room own := absurd rfl own

theorem stWritev_follows {iov : List Iovec} (small : (spans iov).length < 2 ^ 63) {localIov : List Iovec}
    (locals : localIov.length = localMaxiov) (calloc : Bool) (calls : List Call) (polls : List Polled) :
    Follows (spans iov) (((spans iov).length : Int), iov) (-1, iov) (drain false .eintr calls polls (spans iov))
      (stWritev calloc localIov calls polls iov) := by
  have wraps : (iov.map Iovec.len).sum % 2 ^ 64 = (spans iov).length := by
    rw [← spans_length]
    exact Nat.mod_eq_of_lt (by omega)
  unfold stWritev
  rw [wraps]
  exact stWritevLoop_follows small calloc calls polls (Writing.start iov localIov locals)

/-- What st_writev does with an array: the bytes that the kernel accepts are the front of
it, and the result says whether they are all of it. -/
structure WritesExactly (iov : List Iovec) (run : Run Nat (Int × List Iovec)) : Prop where
  safe : run.status ≠ .fault
  front : run.moved <+: spans iov
  caller : ∀ rv after, run.status = .returned (rv, after) → after = iov
  result : ∀ rv after, run.status = .returned (rv, after) →
    rv = ((iov.map Iovec.len).sum : Nat) ∧ run.moved = spans iov ∨ rv = -1 ∧ run.moved ≠ spans iov

theorem WritesExactly.of_follows {iov : List Iovec} {D : Run Nat (Option Errno × List Nat)} {W : Run Nat (Int × List Iovec)}
    (drained : Drained false (spans iov) D)
    (follows : Follows (spans iov) (((spans iov).length : Int), iov) (-1, iov) D W) : WritesExactly iov W := by
  cases follows with
  | same run =>
    rw [run]
    constructor
    case safe => exact fun fault => drained.safe (Status.fault_of_map fault)
    case front => exact drained.front
    case caller =>
      intro rv after ended
      obtain ⟨⟨e, rest⟩, status, same⟩ := Status.returned_of_map ended
      cases e <;> cases same <;> rfl
    case result =>
      intro rv after ended
      obtain ⟨⟨e, rest⟩, status, same⟩ := Status.returned_of_map ended
      have left := drained.left e rest status
      rw [Run.moved_map]
      cases e with
      | none =>
        cases same
        obtain none_ | eof := drained.ends rest status
        · rw [none_, List.append_nil] at left
          exact .inl ⟨by rw [spans_length], left⟩
        · cases eof
      | some e =>
        cases same
        refine .inr ⟨rfl, fun whole => drained.fails e rest status ?_⟩
        rw [whole] at left
        exact List.append_right_eq_self.mp left
  | short rest some_ left status =>
    constructor
    case safe => simp [status]
    case front => exact ⟨rest, left⟩
    case caller =>
      intro rv after ended
      rw [status] at ended
      cases ended
      rfl
    case result =>
      intro rv after ended
      rw [status] at ended
      cases ended
      refine .inr ⟨rfl, fun whole => some_ ?_⟩
      rw [whole] at left
      exact List.append_right_eq_self.mp left

/-- st_writev writes each byte once and in order. -/
theorem writev_exact {iov : List Iovec} (small : (iov.map Iovec.len).sum < 2 ^ 63) {localIov : List Iovec}
    (locals : localIov.length = localMaxiov) (calloc : Bool) (calls : List Call) (polls : List Polled) :
    WritesExactly iov (stWritev calloc localIov calls polls iov) := by
  rw [← spans_length] at small
  exact .of_follows (drain_drained calls polls (spans iov)) (stWritev_follows small locals calloc calls polls)

/-- Two short writes, the second of which ends on a boundary; a vector is empty. -/
theorem writev_exact_short_writes :
    let iov : List Iovec := [⟨100, 3⟩, ⟨200, 0⟩, ⟨300, 2⟩]
    let locals : List Iovec := List.replicate 16 ⟨0, 0⟩
    let run := stWritev true locals [.count 1, .count 2, .failed .eintr, .count 2] [none, none] iov
    WritesExactly iov run ∧ run.status = .returned (5, iov) :=
  ⟨writev_exact (by decide) (by decide) _ _ _, by decide +kernel⟩

/- When the last byte has gone. -/

/-- The call ends with success at the event that transfers the last byte. -/
def EndsAtOnce (iov : List Iovec) (run : Run Nat (Option Errno × Resid)) : Prop :=
  ∀ front e back, run.trace = front ++ e :: back → moved (front ++ [e]) = spans iov →
    back = [] ∧ ∃ r, run.status = .returned (none, r) ∧ r.size = 0

/-- st_writev_resid succeeds wherever st_writev does on the same answers. -/
def Agrees (iov : List Iovec) : Prop :=
  ∀ calloc localIov calls polls after, localIov.length = localMaxiov →
    (stWritev calloc localIov calls polls iov).status = .returned ((iov.map Iovec.len).sum, after) →
    ∃ r, (stWritevResid calls polls (.start iov)).status = .returned (none, r)

theorem EndsFull.completes {iov : List Iovec} (ends : EndsFull iov) (eof : Bool) (calls : List Call)
    (polls : List Polled) : EndsAtOnce iov (residLoop eof calls polls (.start iov)) := by
  intro front e back trace whole
  have drained := residLoop_drain eof calls polls (r := .start iov) rfl ends
  have prompt : Prompt (spans iov) (drain eof .eintr calls polls (spans iov)) := drain_prompt calls polls (spans iov)
  obtain ⟨last, status⟩ := prompt front e back ((congrArg Run.trace drained).symm.trans trace) whole
  refine ⟨last, ?_⟩
  obtain ⟨⟨e, r⟩, ended, bytes⟩ := Status.returned_of_map ((congrArg Run.status drained).trans status)
  have residue := (residLoop_leaves eof iov calls polls).residue e r ended
  obtain ⟨rfl, bytes⟩ := Prod.mk.inj bytes
  have none_ := ((ends.drop _).cut residue.rest).nil.mp bytes
  exact ⟨r, ended, residue.sized.done.mpr none_⟩

theorem advance_stops {n : Nat} {passed rest : List Iovec} {size : Int} {m : Nat} {r : Resid} {v : Iovec} (some_ : 0 < n)
    (last : rest.getLast? = some v) (empty : v.len = 0) (run : advance n passed rest size = some (m, r)) : r.rest ≠ [] := by
  induction rest generalizing n passed size with
  | nil => cases last
  | cons u rest ih =>
    unfold advance at run
    split at run
    · cases rest with
      | nil =>
        have only : u.len = 0 := by
          cases last
          exact empty
        dsimp only at run
        rw [only, Nat.sub_zero, if_neg (by omega)] at run
        cases run
      | cons w rest =>
        dsimp only at run
        split at run
        · cases run
          simp
        · exact ih (by omega) (by simpa using last) run
    · cases run
      simp

theorem Resid.consume_stops {r r' : Resid} {n : Nat} {v : Iovec} (some_ : 0 < n) (last : r.rest.getLast? = some v)
    (empty : v.len = 0) (run : r.consume n = some r') : r'.rest ≠ [] := by
  unfold Resid.consume at run
  obtain ⟨⟨m, r₁⟩, advanced, run⟩ := Option.bind_eq_some_iff.mp run
  have left := advance_stops some_ last empty advanced
  dsimp only at run
  split at run
  · cases run
    exact left
  · split at run
    · cases run
    · cases run
      simp

theorem not_endsFull {iov : List Iovec} : ¬EndsFull iov ↔ ∃ v, iov.getLast? = some v ∧ v.len = 0 := by
  unfold EndsFull
  simp only [not_forall, Nat.not_lt, Nat.le_zero]
  exact ⟨fun ⟨v, last, empty⟩ => ⟨v, last, empty⟩, fun ⟨v, last, empty⟩ => ⟨v, last, empty⟩⟩

/-- All bytes go with the first call, and yet it waits. -/
theorem residLoop_waits {iov : List Iovec} (positive : 0 < (spans iov).length) (open_ : ¬EndsFull iov) (eof : Bool)
    (polls : List Polled) :
    ∃ r next, r.size ≠ 0 ∧ residLoop eof [.count (spans iov).length] polls (.start iov) =
      (await polls (fun e => .finish (some e, r)) next).after (.call (spans iov) (spans iov)) := by
  obtain ⟨v, last, empty⟩ := not_endsFull.mp open_
  have some_ : iov ≠ [] := by
    rintro rfl
    cases last
  have sized : (Resid.start iov).Sized := rfl
  obtain ⟨r, consumed, spec⟩ := sized.consume some_ (Nat.le_refl _)
  have waits : r.size ≠ 0 := fun done =>
    (Resid.start iov).consume_stops positive last empty consumed (spec.sized.done.mp done)
  have bytes : (Resid.start iov).offered = some (spans iov) := sized.offered some_
  refine ⟨r, fun polls => residLoop eof [] polls r, waits, ?_⟩
  unfold residLoop
  rw [if_pos (not_not.mp fun out => some_ (sized.empty.mp out)), bytes]
  dsimp only
  rw [Nat.min_self, List.take_length, if_neg (by omega)]
  have consumed' : (Resid.start iov).consume (spans iov).length = some r := consumed
  rw [consumed']
  dsimp only
  rw [if_neg waits]
  rfl

theorem residLoop_late {iov : List Iovec} (positive : 0 < (spans iov).length) (open_ : ¬EndsFull iov) (eof : Bool) :
    ¬EndsAtOnce iov (residLoop eof [.count (spans iov).length] [] (.start iov)) := by
  obtain ⟨r, next, -, run⟩ := residLoop_waits positive open_ eof []
  rw [run]
  intro completes
  obtain ⟨last, -⟩ := completes [] (.call (spans iov) (spans iov)) [.wait] rfl (by simp [moved])
  cases last

theorem residLoop_completes_iff {iov : List Iovec} (positive : 0 < (spans iov).length) (eof : Bool) :
    (∀ calls polls, EndsAtOnce iov (residLoop eof calls polls (.start iov))) ↔ EndsFull iov := by
  constructor
  · intro completes
    by_contra open_
    exact residLoop_late positive open_ eof (completes _ _)
  · exact fun ends calls polls => ends.completes eof calls polls

/- The comparison with st_writev. -/

theorem stWritevLoop_result (calloc : Bool) (nbyte : Nat) (calls : List Call) (polls : List Polled) (w : Writev) :
    (stWritevLoop calloc nbyte calls polls w).Returns fun x => x.1 = ssize nbyte ∨ x.1 = -1 := by
  induction calls generalizing polls w with
  | nil =>
    unfold stWritevLoop
    split
    · exact .finish (.inl rfl)
    split
    · split
      · exact .fault
      · refine .map fun n => ?_
        dsimp only
        split <;> simp
    · exact .pending
  | cons call calls ih =>
    unfold stWritevLoop
    split
    · exact .finish (.inl rfl)
    split
    · split
      · exact .fault
      · refine .map fun n => ?_
        dsimp only
        split <;> simp
    dsimp only
    split
    · exact .fault
    cases call with
    | failed e =>
      refine .after ?_
      split
      · exact ih polls w
      · exact .finish (.inr rfl)
    | notReady => exact .after (.await (fun _ => .finish (.inr rfl)) fun polls => ih polls w)
    | count n =>
      refine .after ?_
      split
      · exact .finish (.inl rfl)
      split
      · exact .fault
      split
      · exact .finish (.inr rfl)
      split
      · exact .fault
      · exact .await (fun _ => .finish (.inr rfl)) fun polls => ih polls _

theorem ssize_lt (n : Nat) (wraps : n < 2 ^ 64) : ssize n < 2 ^ 63 := by
  unfold ssize
  split <;> omega

theorem EndsFull.agrees {iov : List Iovec} (ends : EndsFull iov) (small : (spans iov).length < 2 ^ 63) : Agrees iov := by
  intro calloc localIov calls polls after locals ended
  have drained := residLoop_drain false calls polls (r := .start iov) rfl ends
  rw [← spans_length] at ended
  rw [stWritevResid_loop]
  obtain run | ⟨rest, -, -, status⟩ := stWritev_follows small locals calloc calls polls
  · rw [run] at ended
    obtain ⟨⟨e, left⟩, status, same⟩ := Status.returned_of_map ended
    cases e with
    | none =>
      obtain ⟨⟨e, r⟩, ended, bytes⟩ := Status.returned_of_map ((congrArg Run.status drained).trans status)
      obtain ⟨rfl, -⟩ := Prod.mk.inj bytes
      exact ⟨r, ended⟩
    | some e =>
      have fails := (Prod.mk.inj same).1
      omega
  · rw [status] at ended
    have fails := (Prod.mk.inj (Status.returned.inj ended)).1
    omega

theorem agrees_large {iov : List Iovec} (large : 2 ^ 63 ≤ (iov.map Iovec.len).sum) : Agrees iov := by
  intro calloc localIov calls polls after locals ended
  have result := stWritevLoop_result calloc _ calls polls _ _ ended
  have below := ssize_lt ((iov.map Iovec.len).sum % 2 ^ 64) (Nat.mod_lt _ (by decide))
  dsimp only at result
  omega

theorem stWritev_at_once {iov : List Iovec} (small : (spans iov).length < 2 ^ 63) (some_ : (spans iov).length ≠ 0)
    (several : iov.length ≠ 1) (calloc : Bool) (localIov : List Iovec) (polls : List Polled) :
    (stWritev calloc localIov [.count (spans iov).length] polls iov).status =
      .returned (((iov.map Iovec.len).sum : Nat), iov) := by
  have wraps : (iov.map Iovec.len).sum % 2 ^ 64 = (spans iov).length := by
    rw [← spans_length]
    exact Nat.mod_eq_of_lt (by omega)
  unfold stWritev
  rw [wraps]
  unfold stWritevLoop
  rw [if_neg some_, if_neg several]
  simp only [Writev.cells, Nat.lt_irrefl, if_false, List.take_length, Nat.min_self, if_true]
  rw [← spans_length, ssize_small small]
  rfl

theorem agrees_iff {iov : List Iovec} (positive : 0 < (spans iov).length) :
    Agrees iov ↔ EndsFull iov ∨ 2 ^ 63 ≤ (iov.map Iovec.len).sum := by
  constructor
  · intro agrees
    by_contra neither
    obtain ⟨open_, small⟩ := not_or.mp neither
    rw [Nat.not_le, ← spans_length] at small
    have several : iov.length ≠ 1 := by
      intro one
      obtain ⟨v, rfl⟩ := List.length_eq_one_iff.mp one
      obtain ⟨u, last, empty⟩ := not_endsFull.mp open_
      cases last
      rw [spans_length] at positive
      simp at positive empty
      omega
    obtain ⟨r, ended⟩ := agrees true (List.replicate localMaxiov ⟨0, 0⟩) [.count (spans iov).length] [some .etime] iov
      List.length_replicate (stWritev_at_once small (by omega) several true _ _)
    obtain ⟨r', next, -, run⟩ := residLoop_waits positive open_ false [some .etime]
    rw [stWritevResid_loop, run] at ended
    cases ended
  · rintro (ends | large)
    · by_cases small : (spans iov).length < 2 ^ 63
      · exact ends.agrees small
      · rw [spans_length, Nat.not_lt] at small
        exact agrees_large small
    · exact agrees_large large

/-- The resid functions end with the last byte exactly when the last vector is not empty.
st_writev does so with any array. -/
theorem resid_completes_iff {iov : List Iovec} (positive : 0 < (iov.map Iovec.len).sum) :
    ((∀ calls polls, EndsAtOnce iov (stReadvResid calls polls (.start iov))) ↔ EndsFull iov) ∧
      ((∀ calls polls, EndsAtOnce iov (stWritevResid calls polls (.start iov))) ↔ EndsFull iov) ∧
      (Agrees iov ↔ EndsFull iov ∨ 2 ^ 63 ≤ (iov.map Iovec.len).sum) := by
  rw [← spans_length] at positive
  simp only [stReadvResid_loop, stWritevResid_loop]
  exact ⟨residLoop_completes_iff positive true, residLoop_completes_iff positive false, agrees_iff positive⟩

theorem resid_completes_iff_empty_in_front :
    (∀ calls polls, EndsAtOnce [⟨100, 0⟩, ⟨200, 2⟩] (stWritevResid calls polls (.start [⟨100, 0⟩, ⟨200, 2⟩]))) ∧
      EndsFull [⟨100, 0⟩, ⟨200, 2⟩] :=
  have ends : EndsFull [⟨100, 0⟩, ⟨200, 2⟩] := by decide
  have positive : 0 < (([⟨100, 0⟩, ⟨200, 2⟩] : List Iovec).map Iovec.len).sum := by decide
  ⟨(resid_completes_iff positive).2.1.mpr ends, ends⟩

/-- One byte, and an empty vector after it: the byte is written, and then st_writev_resid
waits and reports a timeout; st_readv_resid reads on, and returns 0 with a vector left.
st_writev returns 1. -/
theorem resid_waits_after_last_byte :
    let iov : List Iovec := [⟨100, 1⟩, ⟨200, 0⟩]
    let written := stWritevResid [.count 1] [some .etime] (.start iov)
    let read := stReadvResid [.count 1, .count 0] [none] (.start iov)
    ¬EndsAtOnce iov written ∧ ¬EndsAtOnce iov read ∧ ¬Agrees iov ∧
      written.moved = spans iov ∧ written.status = .returned (some .etime, ⟨[⟨101, 0⟩], [⟨200, 0⟩], 1⟩) ∧
      read.moved = spans iov ∧ read.status = .returned (none, ⟨[⟨101, 0⟩], [⟨200, 0⟩], 1⟩) := by
  refine ⟨?_, ?_, ?_, by decide +kernel, by decide +kernel, by decide +kernel, by decide +kernel⟩
  · intro completes
    obtain ⟨last, -⟩ := completes [] (.call [100] [100]) [.wait] (by decide +kernel) (by decide +kernel)
    cases last
  · intro completes
    obtain ⟨last, -⟩ := completes [] (.call [100] [100]) [.wait, .call [] []] (by decide +kernel) (by decide +kernel)
    cases last
  · intro agrees
    obtain ⟨r, ended⟩ := agrees true (List.replicate 16 ⟨0, 0⟩) [.count 1] [some .etime] [⟨100, 1⟩, ⟨200, 0⟩]
      (by decide) (by decide +kernel)
    cases ended

end StateThreads
