import StateThreads.Io.Vector
import Mathlib.Data.List.Basic

/-! What st_readv_resid and st_writev_resid leave behind. -/
namespace StateThreads
open Transfer

def Iovec.cut (v : Iovec) (d : Nat) : Iovec := ⟨v.base + d, v.len - d⟩

/-- The two loops in one, which differ when nothing is transferred. -/
def residLoop (eof : Bool) : List Call → List Polled → Resid → Run Nat (Option Errno × Resid)
  | [], _, r => if 0 < r.size then .pending else .finish (none, r)
  | call :: calls, polls, r =>
    if 0 < r.size then
      match r.offered with
      | none => .fault
      | some bytes =>
        match call with
        | .failed e =>
          Run.after (.call bytes []) (if e = .eintr then residLoop eof calls polls r else .finish (some e, r))
        | .notReady =>
          Run.after (.call bytes []) (await polls (fun e => .finish (some e, r)) fun polls => residLoop eof calls polls r)
        | .count n =>
          let n := min n bytes.length
          Run.after (.call bytes (bytes.take n))
            (if eof ∧ n = 0 then .finish (none, r)
            else match r.consume n with
              | none => .fault
              | some r =>
                if r.size = 0 then .finish (none, r)
                else await polls (fun e => .finish (some e, r)) fun polls => residLoop eof calls polls r)
    else .finish (none, r)

theorem stReadvResid_loop (calls : List Call) (polls : List Polled) (r : Resid) :
    stReadvResid calls polls r = residLoop true calls polls r := by
  induction calls generalizing polls r with
  | nil => rfl
  | cons call calls ih =>
    cases offered : r.offered with
    | none => simp [stReadvResid, residLoop, offered]
    | some bytes =>
      cases call with
      | failed e => simp [stReadvResid, residLoop, offered, ih]
      | notReady => simp [stReadvResid, residLoop, offered, ih]
      | count n =>
        cases consumed : r.consume (min n bytes.length) <;>
          simp [stReadvResid, residLoop, offered, consumed, ih]

theorem stWritevResid_loop (calls : List Call) (polls : List Polled) (r : Resid) :
    stWritevResid calls polls r = residLoop false calls polls r := by
  induction calls generalizing polls r with
  | nil => rfl
  | cons call calls ih =>
    cases offered : r.offered with
    | none => simp [stWritevResid, residLoop, offered]
    | some bytes =>
      cases call with
      | failed e => simp [stWritevResid, residLoop, offered, ih]
      | notReady => simp [stWritevResid, residLoop, offered, ih]
      | count n =>
        cases consumed : r.consume (min n bytes.length) <;>
          simp [stWritevResid, residLoop, offered, consumed, ih]

/- Bytes. -/

theorem spans_cons (v : Iovec) (iov : List Iovec) : spans (v :: iov) = v.span ++ spans iov := rfl

theorem spans_append (a b : List Iovec) : spans (a ++ b) = spans a ++ spans b := List.flatMap_append

theorem Iovec.span_length (v : Iovec) : v.span.length = v.len := List.length_range'

theorem Iovec.span_cut (v : Iovec) (d : Nat) : (v.cut d).span = v.span.drop d := by
  unfold Iovec.span Iovec.cut
  rw [List.drop_range']
  simp

theorem spans_length (iov : List Iovec) : (spans iov).length = (iov.map Iovec.len).sum := by
  induction iov with
  | nil => rfl
  | cons v iov ih => rw [spans_cons, List.length_append, Iovec.span_length, ih, List.map_cons, List.sum_cons]

theorem spans_take_drop (iov : List Iovec) (k : Nat) : spans (iov.take k) ++ spans (iov.drop k) = spans iov := by
  rw [← spans_append, List.take_append_drop]

/- The inner loop. -/

def Iovec.used (v : Iovec) : Iovec := v.cut v.len

inductive CutTo : List Iovec → List Iovec → Prop
  | same (iov : List Iovec) : CutTo iov iov
  | cut {v : Iovec} {d : Nat} (later : List Iovec) (inside : d < v.len) : CutTo (v :: later) (v.cut d :: later)

theorem advance_spec {n : Nat} (passed : List Iovec) {rest : List Iovec} (size : Int) (some_ : rest ≠ [])
    (fits : n ≤ (spans rest).length) :
    ∃ m k, advance n passed rest size =
        some (m, ⟨passed ++ (rest.take k).map Iovec.used, rest.drop k, size - k⟩) ∧ k ≤ rest.length ∧
      (spans (rest.take k)).length + m = n ∧ (m = 0 ∨ ∃ v later, rest.drop k = v :: later ∧ m < v.len) := by
  induction rest generalizing n passed size with
  | nil => exact absurd rfl some_
  | cons v rest ih =>
    unfold advance
    by_cases covers : v.len ≤ n
    · rw [if_pos covers]
      dsimp only
      by_cases last : n - v.len = 0
      · rw [if_pos last, last]
        refine ⟨0, 1, by simp [Iovec.used, Iovec.cut], by simp, ?_, .inl rfl⟩
        rw [List.take_succ_cons, List.take_zero, spans_cons, List.length_append, Iovec.span_length]
        simp only [spans, List.flatMap_nil, List.length_nil]
        omega
      · rw [if_neg last]
        rw [spans_cons, List.length_append, Iovec.span_length] at fits
        have more : rest ≠ [] := by
          rintro rfl
          simp only [spans, List.flatMap_nil, List.length_nil] at fits
          omega
        obtain ⟨m, k, run, within, sum, ends⟩ := ih (n := n - v.len) (passed ++ [⟨v.base + v.len, 0⟩]) (size - 1) more
          (by omega)
        refine ⟨m, k + 1, ?_, by simpa using within, ?_, by simpa using ends⟩
        · rw [run]
          simp only [List.take_succ_cons, List.map_cons, List.drop_succ_cons, List.append_assoc, List.singleton_append,
            Iovec.used, Iovec.cut, Nat.sub_self]
          congr 3
          omega
        · clear ends
          rw [List.take_succ_cons, spans_cons, List.length_append, Iovec.span_length]
          omega
    · rw [if_neg covers]
      refine ⟨n, 0, by simp, by simp, by simp [spans], .inr ⟨v, rest, rfl, by omega⟩⟩

def Resid.Sized (r : Resid) : Prop := r.size = r.rest.length

theorem Resid.Sized.offered {r : Resid} (sized : r.Sized) (some_ : r.rest ≠ []) : r.offered = some (spans r.rest) := by
  unfold Resid.Sized at sized
  unfold Resid.offered
  rw [sized]
  obtain ⟨v, rest, whole⟩ := List.exists_cons_of_ne_nil some_
  by_cases one : ((r.rest.length : Nat) : Int) = 1
  · rw [if_pos one]
    have alone : rest = [] := by
      rw [whole, List.length_cons] at one
      exact List.eq_nil_of_length_eq_zero (by omega)
    rw [whole, alone]
    simp [spans]
  · rw [if_neg one, if_pos (by omega)]
    simp

structure Consumed (r : Resid) (n : Nat) (r' : Resid) : Prop where
  sized : r'.Sized
  bytes : spans r'.rest = (spans r.rest).drop n
  vectors : ∃ k, k ≤ r.rest.length ∧ r'.passed = r.passed ++ (r.rest.take k).map Iovec.used ∧
    CutTo (r.rest.drop k) r'.rest

theorem Resid.Sized.consume {r : Resid} (sized : r.Sized) (some_ : r.rest ≠ []) {n : Nat}
    (fits : n ≤ (spans r.rest).length) : ∃ r', r.consume n = some r' ∧ Consumed r n r' := by
  obtain ⟨m, k, run, within, sum, ends⟩ := advance_spec r.passed r.size some_ fits
  unfold Resid.Sized at sized
  have split := spans_take_drop r.rest k
  have counted : r.size - k = ((r.rest.drop k).length : Nat) := by
    rw [List.length_drop, sized]
    omega
  unfold Resid.consume
  rw [run]
  simp only [Option.bind_eq_bind, Option.bind_some]
  have dropped : (spans r.rest).drop n = (spans (r.rest.drop k)).drop m := by
    rw [← split, ← sum, List.drop_append]
    simp
  cases left : r.rest.drop k with
  | nil =>
    rw [left] at counted dropped
    rw [counted]
    refine ⟨_, if_pos rfl, rfl, ?_, k, within, rfl, ?_⟩
    · rw [dropped]
      simp [spans]
    · rw [left]
      exact .same []
  | cons v later =>
    rw [left] at counted dropped
    have inside : m = 0 ∨ m < v.len := by
      obtain zero | ⟨v', later', same, inside⟩ := ends
      · exact .inl zero
      · rw [left] at same
        cases same
        exact .inr inside
    rw [counted, if_neg (by simp only [List.length_cons]; omega)]
    refine ⟨_, rfl, rfl, ?_, k, within, rfl, ?_⟩
    · show spans (v.cut m :: later) = _
      rw [dropped, spans_cons, spans_cons, Iovec.span_cut, List.drop_append_of_le_length]
      rw [Iovec.span_length]
      omega
    · rw [left]
      obtain rfl | inside := inside
      · exact .same _
      · exact .cut later inside

/- The outer loop. -/

/-- What is left of the array when the bytes gone have been transferred. -/
structure Residue (iov : List Iovec) (gone : List Nat) (r : Resid) : Prop where
  sized : r.Sized
  bytes : gone ++ spans r.rest = spans iov
  passed : r.passed = (iov.take r.passed.length).map Iovec.used
  whole : r.passed.length + r.rest.length = iov.length
  rest : CutTo (iov.drop r.passed.length) r.rest

theorem Residue.start (iov : List Iovec) : Residue iov [] (.start iov) where
  sized := rfl
  bytes := rfl
  passed := rfl
  whole := by simp [Resid.start]
  rest := .same iov

theorem Iovec.cut_cut (v : Iovec) (d e : Nat) : (v.cut d).cut e = v.cut (d + e) := by
  simp only [Iovec.cut, Iovec.mk.injEq]
  omega

theorem CutTo.used {a b : List Iovec} (cut : CutTo a b) (k : Nat) :
    (b.take k).map Iovec.used = (a.take k).map Iovec.used := by
  cases cut with
  | same => rfl
  | @cut v d later inside =>
    cases k with
    | zero => rfl
    | succ k =>
      have same : (v.cut d).used = v.used := by
        simp only [Iovec.used, Iovec.cut_cut]
        congr 1
        simp only [Iovec.cut]
        omega
      rw [List.take_succ_cons, List.take_succ_cons, List.map_cons, List.map_cons, same]

theorem CutTo.length {a b : List Iovec} (cut : CutTo a b) : b.length = a.length := by
  cases cut <;> rfl

theorem CutTo.drop {a b c : List Iovec} (first : CutTo a b) (k : Nat) (second : CutTo (b.drop k) c) :
    CutTo (a.drop k) c := by
  cases first with
  | same => exact second
  | @cut v d later inside =>
    cases k with
    | zero =>
      cases second with
      | same => exact .cut later inside
      | @cut _ e _ within =>
        rw [Iovec.cut_cut]
        refine .cut later ?_
        simp only [Iovec.cut] at within
        omega
    | succ k => exact second

theorem Residue.consume {iov : List Iovec} {gone : List Nat} {r r' : Resid} {n : Nat} (residue : Residue iov gone r)
    (consumed : Consumed r n r') : Residue iov (gone ++ (spans r.rest).take n) r' := by
  obtain ⟨k, within, passed, cut⟩ := consumed.vectors
  have counted : r'.passed.length = r.passed.length + k := by
    rw [passed, List.length_append, List.length_map, List.length_take, Nat.min_eq_left within]
  constructor
  case sized => exact consumed.sized
  case bytes => rw [consumed.bytes, List.append_assoc, List.take_append_drop, residue.bytes]
  case passed =>
    rw [counted, List.take_add, List.map_append, ← residue.passed, passed, residue.rest.used]
  case whole =>
    have whole := residue.whole
    rw [counted, cut.length, List.length_drop]
    omega
  case rest =>
    rw [counted, ← List.drop_drop]
    exact residue.rest.drop k cut

theorem Resid.Sized.empty {r : Resid} (sized : r.Sized) : ¬ 0 < r.size ↔ r.rest = [] := by
  unfold Resid.Sized at sized
  rw [sized, ← List.length_eq_zero_iff]
  omega

theorem Resid.Sized.done {r : Resid} (sized : r.Sized) : r.size = 0 ↔ r.rest = [] := by
  unfold Resid.Sized at sized
  rw [sized, ← List.length_eq_zero_iff]
  omega

structure Exact (iov : List Iovec) (gone : List Nat) (run : Run Nat (Option Errno × Resid)) : Prop where
  safe : run.status ≠ .fault
  exact : ∀ e r, run.status = .returned (e, r) → Residue iov (gone ++ run.moved) r

section
variable {iov : List Iovec} {gone : List Nat}

theorem Exact.pending : Exact iov gone .pending where
  safe := by simp [Run.pending]
  exact _ _ ended := by cases ended

theorem Exact.finish {e : Option Errno} {r : Resid} (residue : Residue iov gone r) : Exact iov gone (.finish (e, r)) where
  safe := by simp [Run.finish]
  exact _ _ ended := by
    cases ended
    simpa using residue

theorem Exact.after {e : Event Nat} {run : Run Nat (Option Errno × Resid)} (later : Exact iov (gone ++ e.moved) run) :
    Exact iov gone (run.after e) where
  safe := later.safe
  exact error r ended := by
    rw [Run.moved_after, ← List.append_assoc]
    exact later.exact error r ended

theorem Exact.await {polls : List Polled} {r : Resid} {next : List Polled → Run Nat (Option Errno × Resid)}
    (residue : Residue iov gone r) (later : ∀ polls, Exact iov gone (next polls)) :
    Exact iov gone (await polls (fun e => .finish (some e, r)) next) := by
  apply await_cases
  · exact .after (by simpa using Exact.pending)
  · intro e
    exact .after (by simpa using Exact.finish residue)
  · intro polls
    exact .after (by simpa using later polls)

theorem residLoop_exact (eof : Bool) (calls : List Call) (polls : List Polled) {r : Resid} (residue : Residue iov gone r) :
    Exact iov gone (residLoop eof calls polls r) := by
  induction calls generalizing polls r gone with
  | nil =>
    unfold residLoop
    split
    · exact .pending
    · exact .finish residue
  | cons call calls ih =>
    unfold residLoop
    split
    · rename_i positive
      have some_ : r.rest ≠ [] := fun none_ => residue.sized.empty.mpr none_ positive
      rw [residue.sized.offered some_]
      dsimp only
      cases call with
      | failed e =>
        refine .after ?_
        rw [Event.moved_call, List.append_nil]
        split
        · exact ih polls residue
        · exact .finish residue
      | notReady =>
        refine .after ?_
        rw [Event.moved_call, List.append_nil]
        exact .await residue fun polls => ih polls residue
      | count n =>
        dsimp only
        refine .after ?_
        rw [Event.moved_call]
        split
        · rename_i ended
          rw [ended.2, List.take_zero, List.append_nil]
          exact .finish residue
        · obtain ⟨r', consumed, spec⟩ := residue.sized.consume some_ (Nat.min_le_right n (spans r.rest).length)
          rw [consumed]
          have residue' := residue.consume spec
          dsimp only
          split
          · exact .finish residue'
          · exact .await residue' fun polls => ih polls residue'
    · exact .finish residue

end

structure Leaves (iov : List Iovec) (run : Run Nat (Option Errno × Resid)) : Prop where
  safe : run.status ≠ .fault
  residue : ∀ e r, run.status = .returned (e, r) → Residue iov run.moved r
  counted : ∀ e r, run.status = .returned (e, r) →
    run.moved.length = (iov.map Iovec.len).sum - (r.rest.map Iovec.len).sum

theorem residLoop_leaves (eof : Bool) (iov : List Iovec) (calls : List Call) (polls : List Polled) :
    Leaves iov (residLoop eof calls polls (.start iov)) := by
  have exact_ := residLoop_exact eof calls polls (Residue.start iov)
  constructor
  case safe => exact exact_.safe
  case residue => exact exact_.exact
  case counted =>
    intro e r ended
    have bytes := congrArg List.length (exact_.exact e r ended).bytes
    rw [List.nil_append, List.length_append, spans_length, spans_length] at bytes
    omega

structure LeavesCount (buf resid : Nat) (run : Run Nat (Option Errno × Nat)) : Prop where
  safe : run.status ≠ .fault
  left : ∀ e left, run.status = .returned (e, left) → left = resid - run.moved.length
  bytes : ∀ e left, run.status = .returned (e, left) → run.moved = List.range' buf (resid - left)

theorem CutTo.head {v : Iovec} {rest : List Iovec} (cut : CutTo [v] rest) : ∃ d, rest = [v.cut d] := by
  cases cut with
  | same => exact ⟨0, rfl⟩
  | cut _ _ => exact ⟨_, rfl⟩

theorem Residue.left {v : Iovec} {gone : List Nat} {r : Resid} (residue : Residue [v] gone r) :
    r.left = v.len - gone.length := by
  have bytes := congrArg List.length residue.bytes
  rw [List.length_append, spans_length, spans_length, List.map_singleton, List.sum_singleton] at bytes
  have whole := residue.whole
  rw [List.length_singleton] at whole
  have rest := residue.rest
  have passed := residue.passed
  unfold Resid.left
  obtain none_ | one : r.passed.length = 0 ∨ r.passed.length = 1 := by omega
  · rw [none_, List.drop_zero] at rest
    obtain ⟨d, only⟩ := rest.head
    rw [List.eq_nil_of_length_eq_zero none_, only]
    rw [only, List.map_singleton, List.sum_singleton] at bytes
    show (v.cut d).len = _
    omega
  · rw [one] at passed
    rw [List.eq_nil_of_length_eq_zero (l := r.rest) (by omega), List.map_nil, List.sum_nil] at bytes
    rw [passed]
    show v.len - v.len = _
    omega

theorem Residue.single {buf resid : Nat} {gone : List Nat} {r : Resid} (residue : Residue [⟨buf, resid⟩] gone r) :
    gone = List.range' buf (resid - r.left) := by
  have bytes : gone ++ spans r.rest = List.range' buf resid := by
    rw [residue.bytes]
    simp [spans, Iovec.span]
  obtain ⟨k, within, front, -⟩ := List.range'_eq_append_iff.mp bytes.symm
  rw [residue.left, front]
  congr 1
  simp only [List.length_range']
  omega

theorem Leaves.single {buf resid : Nat} {run : Run Nat (Option Errno × Resid)} (leaves : Leaves [⟨buf, resid⟩] run) :
    LeavesCount buf resid (run.map fun r => (r.1, r.2.left)) := by
  constructor
  case safe => exact fun fault => leaves.safe (Status.fault_of_map fault)
  case left =>
    intro e left ended
    obtain ⟨⟨e, r⟩, status, same⟩ := Status.returned_of_map ended
    cases same
    exact (leaves.residue e r status).left
  case bytes =>
    intro e left ended
    obtain ⟨⟨e, r⟩, status, same⟩ := Status.returned_of_map ended
    cases same
    exact (leaves.residue e r status).single

/-- Whatever the kernel answers, what these functions leave behind is exactly what has not
been transferred. -/
theorem resid_exact (calls : List Call) (polls : List Polled) :
    (∀ iov, Leaves iov (stReadvResid calls polls (.start iov)) ∧ Leaves iov (stWritevResid calls polls (.start iov))) ∧
      ∀ buf resid, LeavesCount buf resid (stReadResid calls polls buf resid) ∧
        LeavesCount buf resid (stWriteResid calls polls buf resid) := by
  have read (iov : List Iovec) : Leaves iov (stReadvResid calls polls (.start iov)) := by
    rw [stReadvResid_loop]
    exact residLoop_leaves true iov calls polls
  have write (iov : List Iovec) : Leaves iov (stWritevResid calls polls (.start iov)) := by
    rw [stWritevResid_loop]
    exact residLoop_leaves false iov calls polls
  exact ⟨fun iov => ⟨read iov, write iov⟩, fun buf resid => ⟨(read _).single, (write _).single⟩⟩

end StateThreads
