import StateThreads.Contract.Writev
import StateThreads.Proxy.Pass

/-! The proxy sends on what it reads, unchanged and in order, whichever functions it does so
with. -/
namespace StateThreads.Proxy
open Transfer Relay

/- Reading. -/

structure Reads (bytes : List Nat) (run : Run Nat Int) : Prop where
  safe : run.status ≠ .fault
  front : run.moved <+: bytes
  counted : ∀ nr, run.status = .returned nr → 0 < nr → (run.moved.length : Int) = nr

section
variable {bytes : List Nat}

theorem Reads.pending : Reads bytes .pending where
  safe := by simp [Run.pending]
  front := List.nil_prefix
  counted _ ended := by cases ended

theorem Reads.fails : Reads bytes (.finish (-1)) where
  safe := by simp [Run.finish]
  front := List.nil_prefix
  counted _ ended positive := by
    cases ended
    omega

theorem Reads.after {e : Event Nat} {run : Run Nat Int} (nothing : e.moved = []) (later : Reads bytes run) :
    Reads bytes (run.after e) where
  safe := later.safe
  front := by
    rw [Run.moved_after, nothing]
    exact later.front
  counted nr ended positive := by
    rw [Run.moved_after, nothing]
    exact later.counted nr ended positive

theorem retry_reads (calls : List Call) (polls : List Polled) : Reads bytes (retry calls polls bytes) := by
  induction calls generalizing polls with
  | nil => exact .pending
  | cons call calls ih =>
    cases call with
    | failed e =>
      refine .after rfl ?_
      split
      · exact ih polls
      · exact .fails
    | notReady =>
      refine .after rfl ?_
      apply await_cases
      · exact .after rfl .pending
      · exact fun _ => .after rfl .fails
      · exact fun polls => .after rfl (ih polls)
    | count n =>
      constructor
      case safe => simp [retry, Run.after, Run.finish]
      case front =>
        show bytes.take n ++ [] <+: bytes
        rw [List.append_nil]
        exact List.take_prefix n bytes
      case counted =>
        intro nr ended positive
        cases ended
        show ((bytes.take n ++ []).length : Int) = _
        rw [List.append_nil, List.length_take]

end

theorem Reads.of_resid {iov : List Iovec} (ends : EndsFull iov) (calls : List Call) (polls : List Polled)
    {result : Option Errno × Resid → Int} (fails : ∀ e r, result (some e, r) = -1)
    (counts : ∀ gone r, Residue iov gone r → result (none, r) = gone.length) :
    Reads (spans iov) ((residLoop true calls polls (.start iov)).map result) := by
  have leaves := residLoop_leaves true iov calls polls
  have drained := residLoop_drain true calls polls (r := .start iov) rfl ends
  constructor
  case safe => exact fun fault => leaves.safe (Status.fault_of_map fault)
  case front =>
    rw [Run.moved_map, ← Run.moved_map Resid.bytes, drained]
    exact (drain_drained calls polls (spans iov)).front
  case counted =>
    intro nr ended positive
    obtain ⟨⟨e, r⟩, status, same⟩ := Status.returned_of_map ended
    cases e with
    | some e =>
      rw [fails e r] at same
      omega
    | none => rw [Run.moved_map, ← same, counts _ r (leaves.residue none r status)]

/- The vectors. -/

theorem spans_blocks (buf len n : Nat) :
    spans ((List.range n).map fun i => ⟨buf + i * len, len⟩) = List.range' buf (n * len) := by
  induction n with
  | zero =>
    rw [Nat.zero_mul]
    rfl
  | succ n ih =>
    rw [List.range_succ, List.map_append, spans_append, ih, List.map_singleton, Nat.succ_mul, ← List.range'_append_1]
    congr 1
    exact List.append_nil _

theorem spans_readVectors (buf : Nat) : spans (readVectors buf) = List.range' buf ioBufSize :=
  spans_blocks buf iovLen iovCount

theorem endsFull_of_pos {iov : List Iovec} (pos : ∀ v ∈ iov, 0 < v.len) : EndsFull iov :=
  fun v last => pos v (List.mem_of_getLast? last)

theorem readVectors_full (buf : Nat) : EndsFull (readVectors buf) := by
  apply endsFull_of_pos
  intro v member
  obtain ⟨i, -, rfl⟩ := List.mem_map.mp member
  show 0 < iovLen
  decide

theorem writeVectors_spec (buf nr room nw : Nat) (fits : nr - nw ≤ room * iovLen) :
    ∃ iov, writeVectors buf nr room nw = some iov ∧ spans iov = List.range' (buf + nw) (nr - nw) ∧ ∀ v ∈ iov, 0 < v.len := by
  induction room generalizing nw with
  | zero =>
    have done : nr - nw = 0 := by omega
    refine ⟨[], ?_, ?_, by simp⟩
    · rw [writeVectors, if_neg (by omega)]
    · rw [done]
      rfl
  | succ room ih =>
    by_cases more : nw < nr
    · have step : ∃ len, len = (if nr - nw > iovLen then iovLen else nr - nw) ∧ 0 < len ∧ len ≤ nr - nw ∧
          nr - (nw + len) ≤ room * iovLen := by
        refine ⟨_, rfl, ?_⟩
        unfold iovLen at fits ⊢
        split <;> omega
      obtain ⟨len, chosen, positive, within, left⟩ := step
      obtain ⟨iov, rest, bytes, full⟩ := ih (nw + len) left
      refine ⟨⟨buf + nw, len⟩ :: iov, ?_, ?_, ?_⟩
      · rw [writeVectors, if_pos more]
        dsimp only
        rw [← chosen, rest]
        rfl
      · rw [spans_cons, bytes, Iovec.span]
        have split : nr - nw = len + (nr - (nw + len)) := by omega
        rw [split, ← List.range'_append_1, Nat.add_assoc]
      · intro v member
        obtain rfl | member := List.mem_cons.mp member
        · exact positive
        · exact full v member
    · refine ⟨[], ?_, ?_, by simp⟩
      · rw [writeVectors, if_neg more]
      · rw [Nat.sub_eq_zero_of_le (Nat.not_lt.mp more)]
        rfl

theorem vectorsLen_residue {iov : List Iovec} {gone : List Nat} {r : Resid} (residue : Residue iov gone r) :
    gone.length + vectorsLen r = (spans iov).length := by
  have used : (r.passed.map Iovec.len).sum = 0 := by
    rw [residue.passed, List.map_map]
    apply List.sum_eq_zero_iff_forall_eq_nat.mpr
    intro n member
    obtain ⟨v, -, rfl⟩ := List.mem_map.mp member
    show v.len - v.len = 0
    omega
  have bytes := congrArg List.length residue.bytes
  rw [List.length_append, spans_length r.rest] at bytes
  rw [vectorsLen, List.map_append, List.sum_append, used, ← bytes]
  omega

theorem left_residue {buf len : Nat} {gone : List Nat} {r : Resid} (residue : Residue [⟨buf, len⟩] gone r) :
    gone.length + r.left = len := by
  have bytes := congrArg List.length residue.bytes
  rw [List.length_append, spans_length, spans_length, List.map_singleton, List.sum_singleton] at bytes
  have left := residue.left
  dsimp only at left bytes
  omega

theorem spans_single (buf len : Nat) : spans [⟨buf, len⟩] = List.range' buf len := List.append_nil _

theorem single_full {buf len : Nat} (positive : 0 < len) : EndsFull [⟨buf, len⟩] := by
  apply endsFull_of_pos
  intro v member
  rw [List.mem_singleton.mp member]
  exact positive

theorem readIn_reads (testing : Nat) (k : Kernel) : Reads (List.range' k.buf ioBufSize) (readIn testing k) := by
  have single : EndsFull [⟨k.buf, ioBufSize⟩] := single_full (by decide)
  unfold readIn
  split
  · rw [← spans_readVectors]
    split
    · rw [stReadvResid_loop]
      refine .of_resid (readVectors_full k.buf) _ _ (fun e r => rfl) fun gone r residue => ?_
      have whole := vectorsLen_residue residue
      rw [spans_readVectors, List.length_range'] at whole
      show (ioBufSize : Int) - vectorsLen r = _
      omega
    · exact retry_reads _ _
  · split
    · rw [stReadResid, stReadvResid_loop, Run.map_map, ← spans_single]
      refine .of_resid single _ _ (fun e r => rfl) fun gone r residue => ?_
      have whole := left_residue residue
      show (ioBufSize : Int) - r.left = _
      omega
    · exact retry_reads _ _

/- Writing. -/

structure Writes (bytes : List Nat) (run : Run Nat Int) : Prop where
  safe : run.status ≠ .fault
  front : run.moved <+: bytes
  result : ∀ nw, run.status = .returned nw → (nw = bytes.length ↔ run.moved = bytes)

theorem Writes.of_resid {iov : List Iovec} (ends : EndsFull iov) (calls : List Call) (polls : List Polled)
    {result : Option Errno × Resid → Int} (fails : ∀ e r, result (some e, r) = -1)
    (counts : ∀ gone r, Residue iov gone r → result (none, r) = gone.length) :
    Writes (spans iov) ((residLoop false calls polls (.start iov)).map result) := by
  have leaves := residLoop_leaves false iov calls polls
  have same : (residLoop false calls polls (.start iov)).map Resid.bytes = drain false .eintr calls polls (spans iov) :=
    residLoop_drain false calls polls rfl ends
  have drained : Drained false (spans iov) (drain false .eintr calls polls (spans iov)) := drain_drained calls polls _
  have front : (residLoop false calls polls (.start iov)).moved <+: spans iov := by
    rw [← Run.moved_map Resid.bytes, same]
    exact drained.front
  constructor
  case safe => exact fun fault => leaves.safe (Status.fault_of_map fault)
  case front => exact front
  case result =>
    intro nw ended
    obtain ⟨⟨e, r⟩, status, value⟩ := Status.returned_of_map ended
    have residue := leaves.residue e r status
    rw [Run.moved_map, ← value]
    cases e with
    | none =>
      rw [counts _ r residue]
      constructor
      · intro long
        exact front.eq_of_length (by omega)
      · intro all
        rw [all]
    | some e =>
      rw [fails e r]
      constructor
      · intro negative
        omega
      · intro all
        have bytes := residue.bytes
        rw [all] at bytes
        have ended : (drain false .eintr calls polls (spans iov)).status = .returned (some e, spans r.rest) := by
          show _ = (Status.returned (some e, r)).map Resid.bytes
          rw [← status, ← same]
          rfl
        exact absurd (List.append_right_eq_self.mp bytes) (drained.fails e _ ended)

theorem Writes.of_writev {iov : List Iovec} {run : Run Nat (Int × List Iovec)} (exact_ : WritesExactly iov run) :
    Writes (spans iov) (run.map Prod.fst) where
  safe fault := exact_.safe (Status.fault_of_map fault)
  front := exact_.front
  result := by
    intro nw ended
    obtain ⟨⟨rv, after⟩, status, rfl⟩ := Status.returned_of_map ended
    rw [Run.moved_map, spans_length]
    obtain ⟨all, moved⟩ | ⟨fails, moved⟩ := exact_.result rv after status
    · exact ⟨fun _ => moved, fun _ => all⟩
    · refine ⟨fun all => ?_, fun all => absurd all moved⟩
      dsimp only at all
      omega

section
variable {nr : Nat} (positive : 0 < nr) (fits : nr ≤ ioBufSize) (k : Kernel)
include positive fits

theorem stWrite_writes : Writes (List.range' k.buf nr) (stWrite k.writes k.writePolls k.buf nr) := by
  rw [stWrite, stWriteResid, stWritevResid_loop, Run.map_map, ← spans_single]
  refine .of_resid (single_full positive) _ _ (fun e r => rfl) fun gone r residue => ?_
  have whole := left_residue residue
  show ssize (nr - r.left) = _
  unfold ioBufSize at fits
  rw [ssize_small (by omega)]
  omega

theorem writeOut_writes (testing : Nat) : Writes (List.range' k.buf nr) (writeOut testing k nr) := by
  unfold writeOut
  split
  · obtain ⟨iov, filled, bytes, full⟩ := writeVectors_spec k.buf nr iovCount 0 fits
    rw [Nat.add_zero, Nat.sub_zero] at bytes
    rw [filled, ← bytes]
    dsimp only
    split
    · rw [stWritevResid_loop]
      refine .of_resid (endsFull_of_pos full) _ _ (fun e r => rfl) fun gone r residue => ?_
      have whole := vectorsLen_residue residue
      rw [bytes, List.length_range'] at whole
      show (nr : Int) - vectorsLen r = _
      omega
    · have small : (spans iov).length < 2 ^ 63 := by
        rw [bytes, List.length_range']
        unfold ioBufSize at fits
        omega
      exact .of_writev (.of_follows (drain_drained _ _ _) (stWritev_follows small k.locals _ _ _))
  · split
    · rw [stWriteResid, stWritevResid_loop, Run.map_map, ← spans_single]
      refine .of_resid (single_full positive) _ _ (fun e r => rfl) fun gone r residue => ?_
      have whole := left_residue residue
      show (nr : Int) - r.left = _
      omega
    · exact stWrite_writes positive fits k

end

/- One pass. -/

structure Passed (source : Nat → Byte) (f : Flow Byte) (p : Flow Byte × Status Bool) : Prop where
  safe : p.2 ≠ .fault
  behind : p.1.Behind source ioBufSize
  level : p.2 = .returned true → p.1.Level source
  moves : p.2 = .returned true → f.taken < p.1.taken

theorem prefix_range' {l : List Nat} {start n : Nat} (front : l <+: List.range' start n) :
    l = List.range' start l.length := by
  obtain ⟨rest, whole⟩ := front
  obtain ⟨k, -, same, -⟩ := List.range'_eq_append_iff.mp whole.symm
  rw [same, List.length_range']

section
variable {k : Kernel} {source : Nat → Byte} {f : Flow Byte}

theorem through_passed {read : Run Nat Int} {write : Nat → Run Nat Int} (reads : Reads (List.range' k.buf ioBufSize) read)
    (writes : ∀ nr, 0 < nr → nr ≤ ioBufSize → Writes (List.range' k.buf nr) (write nr)) (level : f.Level source) :
    Passed source f (through k source read write f) := by
  have distinct : read.moved.Nodup := List.Nodup.sublist reads.front.sublist List.nodup_range'
  have fits : read.moved.length ≤ ioBufSize := by
    simpa using reads.front.length_le
  have unsent : (f.pass source k.garbage read.moved []).Behind source ioBufSize :=
    level.pass_behind distinct List.nil_prefix fits
  unfold through
  cases status : read.status with
  | fault => exact absurd status reads.safe
  | pending => exact ⟨by simp, unsent, by simp, by simp⟩
  | returned nr =>
    dsimp only
    split
    · exact ⟨by simp, unsent, by simp, by simp⟩
    · rename_i positive
      have counted := reads.counted nr status (by omega)
      have bytes : List.range' k.buf nr.toNat = read.moved := by
        rw [prefix_range' reads.front, ← counted, Int.toNat_natCast]
      have written := writes nr.toNat (by omega) (by omega)
      rw [bytes] at written
      -- pass returns 1 when nw = nr, and then all that came in has gone out
      have all : ((write nr.toNat).status.map fun nw => decide (nw = nr)) = .returned true →
          (write nr.toNat).moved = read.moved := by
        intro ended
        obtain ⟨nw, returned, same⟩ := Status.returned_of_map ended
        apply (written.result nw returned).mp
        rw [of_decide_eq_true same, counted]
      constructor
      case safe => exact fun fault => written.safe (Status.fault_of_map fault)
      case behind => exact level.pass_behind distinct written.front fits
      case level =>
        intro ended
        dsimp only
        rw [all ended]
        exact level.pass_level distinct
      case moves =>
        intro _
        show f.taken < f.taken + read.moved.length
        omega

theorem pass_passed (build : Build) (level : f.Level source) : Passed source f (pass build k source f) := by
  cases build with
  | debug testing =>
    exact through_passed (readIn_reads testing k) (fun nr positive fits => writeOut_writes positive fits k testing) level
  | simple =>
    exact through_passed (retry_reads _ _) (fun nr positive fits => stWrite_writes positive fits k) level

/-- Without a bit of testing the two versions are one. -/
theorem pass_debug_none : pass (.debug 0) = pass .simple := rfl

end

/- Connecting. -/

/-- connect was only ever interrupted until it succeeded, or until the connection was under
way and then found to be set up. That the address is in use means the latter only after an
interrupt. -/
def Connects (poll : Option Polled) (soError : Option Nat) (err : Bool) (calls : List (Option ConnectErrno)) : Prop :=
  ∃ n last rest, calls = List.replicate n (some .eintr) ++ last :: rest ∧
    (last = none ∨ (last = some .einprogress ∨ last = some .eaddrinuse ∧ (err = true ∨ 0 < n)) ∧
      poll = some none ∧ soError = some 0)

section
variable {poll : Option Polled} {soError : Option Nat} {err : Bool} {calls : List (Option ConnectErrno)}

theorem connects_interrupted :
    Connects poll soError err (some .eintr :: calls) ↔ Connects poll soError true calls := by
  constructor
  · rintro ⟨n, last, rest, whole, holds⟩
    cases n with
    | zero =>
      obtain ⟨rfl, rfl⟩ := List.cons.inj whole
      simp at holds
    | succ n =>
      refine ⟨n, last, rest, (List.cons.inj whole).2, ?_⟩
      simpa using holds
  · rintro ⟨n, last, rest, rfl, holds⟩
    refine ⟨n + 1, last, rest, rfl, ?_⟩
    simpa using holds

theorem connects_last {last : Option ConnectErrno} (other : last ≠ some .eintr) :
    Connects poll soError err (last :: calls) ↔
      last = none ∨ (last = some .einprogress ∨ last = some .eaddrinuse ∧ err = true) ∧
        poll = some none ∧ soError = some 0 := by
  constructor
  · rintro ⟨n, last', rest, whole, holds⟩
    cases n with
    | zero =>
      obtain ⟨rfl, rfl⟩ := List.cons.inj whole
      simpa using holds
    | succ n => exact absurd (List.cons.inj whole).1 other
  · intro holds
    exact ⟨0, last, calls, rfl, by simpa using holds⟩

theorem stConnect_iff : stConnect poll soError err calls = some true ↔ Connects poll soError err calls := by
  induction calls generalizing err with
  | nil =>
    constructor
    · intro returned
      cases returned
    · rintro ⟨n, last, rest, whole, -⟩
      simp at whole
  | cons call calls ih =>
    by_cases interrupted : call = some .eintr
    · rw [interrupted, connects_interrupted, ← ih]
      rfl
    rw [connects_last interrupted]
    cases call with
    | none => simp [stConnect]
    | some errno =>
      have answered : poll.map (fun polled => if polled ≠ none then false else soError.elim false (· = 0)) = some true ↔
          poll = some none ∧ soError = some 0 := by
        rcases poll with _ | _ | e <;> rcases soError with _ | code <;> simp
      cases errno with
      | eintr => exact absurd rfl interrupted
      | einprogress => simpa [stConnect] using answered
      | eaddrinuse =>
        cases err with
        | false => simp [stConnect]
        | true => simpa [stConnect] using answered
      | other => simp [stConnect]

end

def Connected (setup : Setup) : Prop :=
  setup.socket = true ∧ setup.openSocket = true ∧ Connects setup.poll setup.soError false setup.connects

/- The loop. -/

def Round.cliReady (round : Round) : Bool := round.ready.elim false Prod.fst

def Round.rmtReady (round : Round) : Bool := round.ready.elim false Prod.snd

/-- What holds of a request at all times: each side has been sent the front of what the other
one sent, at most one buffer is held back and only in one of the two directions, and none
while the request waits in st_poll. On return everything has been closed once. -/
structure Relayed (fromCli fromRmt : Nat → Byte) (r : Request) : Prop where
  safe : r.place ≠ .fault
  up : r.up.Behind fromCli ioBufSize
  down : r.down.Behind fromRmt ioBufSize
  one : r.up.Level fromCli ∨ r.down.Level fromRmt
  idle : r.place = .polling → r.up.Level fromCli ∧ r.down.Level fromRmt
  closed : r.closed.Perm (if r.place = .returned then r.opened else [])

structure Steady (fromCli fromRmt : Nat → Byte) (r : Request) : Prop where
  up : r.up.Level fromCli
  down : r.down.Level fromRmt
  opened : r.opened = [.cli, .sock]
  closed : r.closed = []

section
variable {fromCli fromRmt : Nat → Byte} {r : Request}

theorem settle_cases {P : Request → Prop} {status : Status Bool} {next : Request → Request} (safe : status ≠ .fault)
    (again : status = .returned true → P (next r))
    (stopped : ∀ r', r'.up = r.up → r'.down = r.down → r'.opened = r.opened →
      r'.place = .returned ∧ r'.closed = r.closed ++ [.sock] ++ [.cli] ∨ r'.place = .passing ∧ r'.closed = r.closed → P r') :
    P (r.settle status next) := by
  cases status with
  | fault => exact absurd rfl safe
  | pending => exact stopped _ rfl rfl rfl (.inr ⟨rfl, rfl⟩)
  | returned b =>
    cases b with
    | true => exact again rfl
    | false => exact stopped _ rfl rfl rfl (.inl ⟨rfl, rfl⟩)

theorem relayed_stopped {r' : Request} (opened : r.opened = [.cli, .sock]) (closed : r.closed = [])
    (up : r'.up.Behind fromCli ioBufSize) (down : r'.down.Behind fromRmt ioBufSize)
    (one : r'.up.Level fromCli ∨ r'.down.Level fromRmt) (same : r'.opened = r.opened)
    (stop : r'.place = .returned ∧ r'.closed = r.closed ++ [.sock] ++ [.cli] ∨ r'.place = .passing ∧ r'.closed = r.closed) :
    Relayed fromCli fromRmt r' ∧ r'.place ≠ .polling := by
  rw [opened] at same
  rw [closed] at stop
  obtain ⟨place, ended⟩ | ⟨place, ended⟩ := stop
  · refine ⟨⟨by simp [place], up, down, one, by simp [place], ?_⟩, by simp [place]⟩
    rw [place, if_pos rfl, ended, same]
    decide
  · refine ⟨⟨by simp [place], up, down, one, by simp [place], ?_⟩, by simp [place]⟩
    rw [place, if_neg (by simp), ended]

section
variable {P : Request → Prop} (build : Build) (ready : Bool) (k : Kernel) {next : Request → Request}
  (steady : Steady fromCli fromRmt r) (stopped : ∀ r', Relayed fromCli fromRmt r' → r'.place ≠ .polling → P r')
include steady stopped

theorem passUp_cases (again : ∀ r', Steady fromCli fromRmt r' → r.up.taken + ready.toNat ≤ r'.up.taken →
    r'.down.taken = r.down.taken → P (next r')) : P (r.passUp build fromCli ready k next) := by
  unfold Request.passUp
  split
  · rename_i on
    have passed := pass_passed (k := k) build steady.up
    refine settle_cases passed.safe (fun one => ?_) fun r' up down same stop => ?_
    · refine again _ ⟨passed.level one, steady.down, steady.opened, steady.closed⟩ ?_ rfl
      rw [on]
      exact passed.moves one
    · have level : r'.down.Level fromRmt := by
        rw [down]
        exact steady.down
      have behind : r'.up.Behind fromCli ioBufSize := by
        rw [up]
        exact passed.behind
      obtain ⟨relayed, place⟩ := relayed_stopped steady.opened steady.closed behind level.behind (.inr level) same stop
      exact stopped r' relayed place
  · rename_i off
    exact again r steady (by simp [off]) rfl

theorem passDown_cases (again : ∀ r', Steady fromCli fromRmt r' → r.down.taken + ready.toNat ≤ r'.down.taken →
    r'.up.taken = r.up.taken → P (next r')) : P (r.passDown build fromRmt ready k next) := by
  unfold Request.passDown
  split
  · rename_i on
    have passed := pass_passed (k := k) build steady.down
    refine settle_cases passed.safe (fun one => ?_) fun r' up down same stop => ?_
    · refine again _ ⟨steady.up, passed.level one, steady.opened, steady.closed⟩ ?_ rfl
      rw [on]
      exact passed.moves one
    · have level : r'.up.Level fromCli := by
        rw [up]
        exact steady.up
      have behind : r'.down.Behind fromRmt ioBufSize := by
        rw [down]
        exact passed.behind
      obtain ⟨relayed, place⟩ := relayed_stopped steady.opened steady.closed level.behind behind (.inl level) same stop
      exact stopped r' relayed place
  · rename_i off
    exact again r steady (by simp [off]) rfl

end

/-- Each round that goes back to st_poll has moved a byte at least from each side that was
ready. -/
def Progress (rounds : List Round) (r r' : Request) : Prop :=
  r.up.taken + rounds.countP Round.cliReady ≤ r'.up.taken ∧ r.down.taken + rounds.countP Round.rmtReady ≤ r'.down.taken

theorem pump_relayed (build : Build) (rounds : List Round) (steady : Steady fromCli fromRmt r) :
    Relayed fromCli fromRmt (pump build fromCli fromRmt rounds r) ∧
      ((pump build fromCli fromRmt rounds r).place = .polling →
        Progress rounds r (pump build fromCli fromRmt rounds r)) := by
  induction rounds generalizing r with
  | nil =>
    refine ⟨⟨by simp [pump], steady.up.behind, steady.down.behind, .inl steady.up, fun _ => ⟨steady.up, steady.down⟩, ?_⟩,
      fun _ => ⟨Nat.le_refl _, Nat.le_refl _⟩⟩
    show r.closed.Perm []
    rw [steady.closed]
  | cons round rounds ih =>
    unfold pump
    split
    · have stop : Relayed fromCli fromRmt (r.close .sock).done ∧ (r.close .sock).done.place ≠ .polling :=
        relayed_stopped steady.opened steady.closed steady.up.behind steady.down.behind (.inl steady.up) rfl
          (.inl ⟨rfl, rfl⟩)
      exact ⟨stop.1, fun polling => absurd polling stop.2⟩
    · rename_i cli rmt ready
      have cliReady : (round :: rounds).countP Round.cliReady = cli.toNat + rounds.countP Round.cliReady := by
        rw [List.countP_cons, Round.cliReady, ready]
        cases cli <;> simp [Nat.add_comm]
      have rmtReady : (round :: rounds).countP Round.rmtReady = rmt.toNat + rounds.countP Round.rmtReady := by
        rw [List.countP_cons, Round.rmtReady, ready]
        cases rmt <;> simp [Nat.add_comm]
      have stopped (r' : Request) (relayed : Relayed fromCli fromRmt r') (place : r'.place ≠ .polling) :
          Relayed fromCli fromRmt r' ∧ (r'.place = .polling → Progress (round :: rounds) r r') :=
        ⟨relayed, fun polling => absurd polling place⟩
      apply passUp_cases build cli round.up steady stopped
      intro r₁ steady₁ up₁ down₁
      apply passDown_cases build rmt round.down steady₁ stopped
      intro r₂ steady₂ down₂ up₂
      obtain ⟨relayed, progress⟩ := ih steady₂
      refine ⟨relayed, fun polling => ?_⟩
      obtain ⟨up, down⟩ := progress polling
      rw [Progress, cliReady, rmtReady]
      omega

theorem relayed_before {r : Request} (up : r.up = .start) (down : r.down = .start)
    (place : r.place = .returned ∨ r.place = .connecting)
    (closed : r.closed.Perm (if r.place = .returned then r.opened else [])) :
    Relayed fromCli fromRmt r ∧ r.place ≠ .polling ∧ r.up.taken = 0 ∧ r.down.taken = 0 := by
  have level : r.up.Level fromCli := by
    rw [up]
    exact .start
  have level' : r.down.Level fromRmt := by
    rw [down]
    exact .start
  have polling : r.place ≠ .polling := by
    obtain place | place := place <;> simp [place]
  have safe : r.place ≠ .fault := by
    obtain place | place := place <;> simp [place]
  refine ⟨⟨safe, level.behind, level'.behind, .inl level, fun poll => absurd poll polling, closed⟩, polling, ?_, ?_⟩
  · rw [up]
    rfl
  · rw [down]
    rfl

def Request.connected : Request := ⟨.start, .start, [.cli, .sock], [], .connecting⟩

variable (fromCli fromRmt) in
theorem handleRequest_cases (build : Build) (setup : Setup) (rounds : List Round) :
    Connected setup ∧
        handleRequest build fromCli fromRmt setup rounds = pump build fromCli fromRmt rounds .connected ∨
      ¬Connected setup ∧ Relayed fromCli fromRmt (handleRequest build fromCli fromRmt setup rounds) ∧
        (handleRequest build fromCli fromRmt setup rounds).place ≠ .polling ∧
        (handleRequest build fromCli fromRmt setup rounds).up.taken = 0 ∧
        (handleRequest build fromCli fromRmt setup rounds).down.taken = 0 := by
  unfold handleRequest
  dsimp only
  split
  · rename_i socket
    exact .inr ⟨fun connected => socket connected.1, relayed_before rfl rfl (.inl rfl) (by decide)⟩
  rename_i socket
  split
  · rename_i opened
    exact .inr ⟨fun connected => opened connected.2.1, relayed_before rfl rfl (.inl rfl) (by decide)⟩
  rename_i opened
  have iff_ := @stConnect_iff setup.poll setup.soError false setup.connects
  split
  · rename_i returned
    exact .inr ⟨fun connected => absurd (iff_.mpr connected.2.2) (by simp [returned]),
      relayed_before rfl rfl (.inr rfl) (by decide)⟩
  · rename_i returned
    exact .inr ⟨fun connected => absurd (iff_.mpr connected.2.2) (by simp [returned]),
      relayed_before rfl rfl (.inl rfl) (by decide)⟩
  · rename_i returned
    exact .inl ⟨⟨not_not.mp socket, not_not.mp opened, iff_.mp returned⟩, rfl⟩

end

/-- The data that goes through is neither changed nor lost nor mixed up, with every version of
pass and whatever the kernel answers. Nothing is read until the connection is set up, and with
it the loop begins. -/
theorem proxy_relays (build : Build) (fromCli fromRmt : Nat → Byte) (setup : Setup) (rounds : List Round) :
    let r := handleRequest build fromCli fromRmt setup rounds
    Relayed fromCli fromRmt r ∧
      (r.place = .polling → rounds.countP Round.cliReady ≤ r.up.taken ∧ rounds.countP Round.rmtReady ≤ r.down.taken) ∧
      (¬Connected setup → r.up.taken = 0 ∧ r.down.taken = 0) ∧
      ((handleRequest build fromCli fromRmt setup []).place = .polling ↔ Connected setup) := by
  have begins : (handleRequest build fromCli fromRmt setup []).place = .polling ↔ Connected setup := by
    obtain ⟨connected, enters⟩ | ⟨not, -, place, -⟩ := handleRequest_cases fromCli fromRmt
      build setup []
    · rw [enters]
      exact ⟨fun _ => connected, fun _ => rfl⟩
    · exact ⟨fun polling => absurd polling place, fun connected => absurd connected not⟩
  dsimp only
  obtain ⟨connected, enters⟩ | ⟨not, relayed, place, none_⟩ := handleRequest_cases fromCli fromRmt
    build setup rounds
  · rw [enters]
    have steady : Steady fromCli fromRmt .connected := ⟨.start, .start, rfl, rfl⟩
    obtain ⟨relayed, progress⟩ := pump_relayed build rounds steady
    refine ⟨relayed, fun polling => ?_, fun not => absurd connected not, begins⟩
    simpa [Progress, Request.connected, Flow.start] using progress polling
  · exact ⟨relayed, fun polling => absurd polling place, fun _ => none_, begins⟩

end StateThreads.Proxy
