import StateThreads.Fileio.Reader
import Mathlib.Data.Nat.ModEq

/-! Requests and replies of stx_file_read, over every interleaving of the threads that call it
and the process that reads. -/
namespace StateThreads.Fileio
open LabelledRun

theorem length_toBytes (k n : Nat) : (toBytes k n).length = k := by
  induction k generalizing n with
  | zero => rfl
  | succ k ih => simp [toBytes, ih]

theorem ofBytes_toBytes (k n : Nat) : ofBytes (toBytes k n) = n % 256 ^ k := by
  induction k generalizing n with
  | zero => simp [toBytes, ofBytes, Nat.mod_one]
  | succ k ih =>
    rw [toBytes, ofBytes, ih, pow_succ', Nat.mod_mul]
    simp

theorem ssize_toBytes {n : Nat} (small : n ≤ filereaderMaxRead) : ssize (toBytes wordSize n) = n := by
  rw [ssize, ofBytes_toBytes, BitVec.toInt_eq_toNat_of_lt] <;> simp only [BitVec.toNat_ofNat, wordSize, filereaderMaxRead] at *
  · omega
  · omega

variable {τ : Type}

def Section (file : List UInt8) (offset : Int) (buf : List UInt8) : Prop :=
  0 ≤ offset ∧ buf = (file.drop offset.toNat).take buf.length

def request (ev : FileEvent τ) : Option (Int × Nat) :=
  match ev.label with
  | .call _ offset nbytes _ => some (offset, nbytes)
  | .ready t | .giveUp t => (ev.pre.calls t).map fun c => (c.offset, c.nbytes)
  | .child _ => none

/-- A call that returns n > 0 has put the n bytes of the file at its offset into its buffer. -/
def Paired (file : List UInt8) (ev : FileEvent τ) : Prop :=
  ∀ offset nbytes n buf, request ev = some (offset, nbytes) → ev.out = .returned n buf → 0 < n →
    (buf.length : Int) = n ∧ n ≤ nbytes ∧ Section file offset buf

def Stage.Free (stage : Stage) : Prop := stage = .listening ∨ stage = .halfway []

def Reader.Quiet (r : Reader) : Prop := r.data = [] ∧ (r.stage = .exited ∨ r.control = [] ∧ r.stage.Free)

/-- No call is in progress, and nothing of an earlier one is left in the pipes or in the
process; a process that is still to be started will find the file at offset 0, or has to go
elsewhere. -/
structure Clean (s : Descriptor τ) (offset : Int) : Prop where
  alone : ∀ t, s.calls t = none
  rewound : s.reader = none → s.offset = 0 ∨ offset ≠ 0
  quiet : ∀ r, s.reader = some r → r.Quiet

structure Fits (file : List UInt8) (offset : Int) (nbytes : Nat) (buf : List UInt8) : Prop where
  few : buf.length ≤ nbytes
  part : Section file offset buf

inductive InFlight (file : List UInt8) (offset : Int) (nbytes : Nat) : Wait → Reader → Prop
  | asked {pos : Int} {stage : Stage} (free : stage.Free) :
    InFlight file offset nbytes .length ⟨[⟨offset, nbytes⟩], [], pos, stage⟩
  | held {pos : Int} {buf : List UInt8} (fits : Fits file offset nbytes buf) :
    InFlight file offset nbytes .length ⟨[], [], pos, .holding buf⟩
  | told {pos : Int} {buf : List UInt8} (fits : Fits file offset nbytes buf) :
    InFlight file offset nbytes .length ⟨[], toBytes wordSize buf.length, pos, .halfway buf⟩
  | sent {pos : Int} {buf : List UInt8} (fits : Fits file offset nbytes buf) :
    InFlight file offset nbytes .length ⟨[], toBytes wordSize buf.length ++ buf, pos, .listening⟩
  | gone {control : List Request} {pos : Int} : InFlight file offset nbytes .length ⟨control, [], pos, .exited⟩
  | due {pos : Int} {buf : List UInt8} (fits : Fits file offset nbytes buf) (some : buf ≠ []) :
    InFlight file offset nbytes (.data buf.length) ⟨[], [], pos, .halfway buf⟩
  | here {pos : Int} {buf : List UInt8} (fits : Fits file offset nbytes buf) (some : buf ≠ []) :
    InFlight file offset nbytes (.data buf.length) ⟨[], buf, pos, .listening⟩

def Synced (offset : Nat) (r : Reader) : Prop := r.stage ≠ .exited →
  r.pos = offset ∨ r.stage = .listening ∧ ∃ cb, r.control = [cb] ∧ r.pos ≠ cb.offset

structure FileInv (file : List UInt8) (s : Descriptor τ) : Prop where
  sync : ∀ r, s.reader = some r → Synced s.offset r
  single : ∀ t u, s.calls t ≠ none → s.calls u ≠ none → t = u
  flight : ∀ t c, s.calls t = some c → 0 < c.nbytes ∧ c.nbytes ≤ filereaderMaxRead ∧
    ∃ r, s.reader = some r ∧ InFlight file c.offset c.nbytes c.wait r

variable [DecidableEq τ] {file : List UInt8} {s : Descriptor τ} {r : Reader} {t : τ} {c : Call}

structure Alike (r r' : Reader) : Prop where
  stage : r'.stage = r.stage
  pos : r'.pos = r.pos
  control : r'.control = r.control

theorem Synced.alike {offset : Nat} {r' : Reader} (synced : Synced offset r) (same : Alike r r') : Synced offset r' := by
  unfold Synced at *
  rwa [same.stage, same.pos, same.control]

/-- What a call does from one blocking to the next or to its end: it blocks with the answer
still on its way, or returns. -/
inductive Turn (file : List UInt8) (s : Descriptor τ) (r : Reader) (t : τ) (c : Call) : Descriptor τ × FileRet → Prop
  | blocks {r' : Reader} {wait : Wait} (same : Alike r r') (flight : InFlight file c.offset c.nbytes wait r') :
    Turn file s r t c (s.block r' t { c with wait := wait })
  | returns {r' : Reader} {n : Int} {buf : List UInt8} (same : Alike r r') (quiet : r'.Quiet)
    (right : 0 < n → (buf.length : Int) = n ∧ Fits file c.offset c.nbytes buf) : Turn file s r t c (s.finish (some r') t n buf)

omit [DecidableEq τ] in
theorem read_word (n : Nat) (rest : List UInt8) : (toBytes wordSize n ++ rest).take wordSize = toBytes wordSize n ∧
    (toBytes wordSize n ++ rest).drop wordSize = rest := by
  have len := length_toBytes wordSize n
  constructor
  · rw [List.take_append_of_le_length (by omega), List.take_of_length_le (by omega)]
  · rw [List.drop_append_of_le_length (by omega), List.drop_of_length_le (by omega), List.nil_append]

theorem readData_turn {wait : Wait} (flight : InFlight file c.offset c.nbytes wait r) {ret : Nat} (this : wait = .data ret) :
    Turn file s r t c (readData s r t c ret) := by
  cases flight with
  | due fits some =>
    cases this
    exact .blocks ⟨rfl, rfl, rfl⟩ (.due fits some)
  | @here pos buf fits some =>
    cases this
    have read : Reader.read ⟨[], buf, pos, .listening⟩ buf.length = .some (buf, ⟨[], [], pos, .listening⟩) := by
      simp [Reader.read, some]
    rw [readData, read]
    exact .returns ⟨rfl, rfl, rfl⟩ ⟨rfl, .inr ⟨rfl, .inl rfl⟩⟩ fun _ => ⟨rfl, fits⟩
  | _ => cases this

theorem Turn.of_same {r₁ : Reader} {res : Descriptor τ × FileRet} (turn : Turn file s r₁ t c res)
    (same : Alike r r₁) : Turn file s r t c res := by
  have both : ∀ {r'}, Alike r₁ r' → Alike r r' := fun same' =>
    ⟨same'.stage.trans same.stage, same'.pos.trans same.pos, same'.control.trans same.control⟩
  cases turn with
  | blocks same' flight => exact .blocks (both same') flight
  | returns same' quiet right => exact .returns (both same') quiet right

theorem readLength_word {pos : Int} {buf rest : List UInt8} {stage : Stage} (fits : Fits file c.offset c.nbytes buf)
    (small : c.nbytes ≤ filereaderMaxRead)
    (next : buf ≠ [] → InFlight file c.offset c.nbytes (.data buf.length) ⟨[], rest, pos, stage⟩)
    (last : buf = [] → rest = [] ∧ stage.Free) :
    Turn file s ⟨[], toBytes wordSize buf.length ++ rest, pos, stage⟩ t c
      (readLength s ⟨[], toBytes wordSize buf.length ++ rest, pos, stage⟩ t c) := by
  have len := length_toBytes wordSize buf.length
  obtain ⟨word, left⟩ := read_word buf.length rest
  have some : toBytes wordSize buf.length ++ rest ≠ [] := by
    intro none
    rw [(List.append_eq_nil_iff.mp none).1] at len
    cases len
  have read : Reader.read ⟨[], toBytes wordSize buf.length ++ rest, pos, stage⟩ wordSize =
      .some (toBytes wordSize buf.length, ⟨[], rest, pos, stage⟩) := by
    rw [Reader.read, if_neg fun none => some none.1]
    simp only [word, left]
  have ret : ssize (toBytes wordSize buf.length ++ minusOne.drop wordSize) = buf.length := by
    rw [show minusOne.drop wordSize = [] from rfl, List.append_nil]
    exact ssize_toBytes (Nat.le_trans fits.few small)
  simp only [readLength, read, len, ret, true_and]
  by_cases empty : buf = []
  · subst empty
    rw [if_neg (by simp)]
    exact .returns ⟨rfl, rfl, rfl⟩ ⟨(last rfl).1, .inr ⟨rfl, (last rfl).2⟩⟩ (by simp)
  · have positive := List.length_pos_iff.mpr empty
    have few := fits.few
    rw [if_pos (by omega), Int.toNat_natCast]
    exact (readData_turn (next empty) rfl).of_same ⟨rfl, rfl, rfl⟩

theorem readLength_turn (flight : InFlight file c.offset c.nbytes .length r) (small : c.nbytes ≤ filereaderMaxRead) :
    Turn file s r t c (readLength s r t c) := by
  cases flight with
  | asked free =>
    obtain rfl | rfl := free
    · exact .blocks ⟨rfl, rfl, rfl⟩ (.asked (.inl rfl))
    · exact .blocks ⟨rfl, rfl, rfl⟩ (.asked (.inr rfl))
  | held fits => exact .blocks ⟨rfl, rfl, rfl⟩ (.held fits)
  | @told pos buf fits =>
    have turn : Turn file s ⟨[], toBytes wordSize buf.length ++ [], pos, .halfway buf⟩ t c _ :=
      readLength_word fits small (.due fits) fun none => ⟨rfl, .inr (by rw [none])⟩
    rwa [List.append_nil] at turn
  | sent fits => exact readLength_word fits small (.here fits) fun none => ⟨none, .inl rfl⟩
  | gone =>
    have failed : ¬ 0 < ssize minusOne := by decide
    exact .returns ⟨rfl, rfl, rfl⟩ ⟨rfl, .inl rfl⟩ fun positive => absurd positive failed

theorem sendRequest_turn (quiet : r.Quiet)
    (sync : r.stage ≠ .exited → r.pos = s.offset ∨ r.stage = .listening ∧ r.pos ≠ c.offset)
    (small : c.nbytes ≤ filereaderMaxRead) : ∃ r', Synced s.offset r' ∧ Turn file s r' t c (sendRequest s r t c) := by
  obtain ⟨control, bytes, pos, stage⟩ := r
  obtain ⟨data, quiet⟩ := quiet
  dsimp only at data quiet sync
  subst data
  obtain rfl | ⟨rfl, free⟩ := quiet
  · exact ⟨_, fun alive => absurd rfl alive, readLength_turn .gone small⟩
  · have alive : stage ≠ .exited := by
      obtain rfl | rfl := free <;> simp
    refine ⟨⟨[⟨c.offset, c.nbytes⟩], [], pos, stage⟩, fun _ => ?_, ?_⟩
    · obtain same | ⟨listens, other⟩ := sync alive
      · exact .inl same
      · exact .inr ⟨listens, _, rfl, other⟩
    · rw [sendRequest, if_neg alive, if_pos (by simp [controlCapacity])]
      exact readLength_turn (.asked free) small

omit [DecidableEq τ] in
theorem seek_cases (cb : Request) (sync : r.pos = s.offset ∨ r.pos ≠ cb.offset) :
    seek s r cb = none ∨ ∃ offset : Nat, seek s r cb = some ((offset : Int), offset) ∧ (offset : Int) = cb.offset := by
  unfold seek
  split
  · split
    · exact .inr ⟨cb.offset.toNat, by simp only [Int.toNat_of_nonneg, *], by omega⟩
    · exact .inl rfl
  · rename_i there
    obtain same | other := sync
    · exact .inr ⟨s.offset, by rw [same], by omega⟩
    · exact absurd other there

omit [DecidableEq τ] in
theorem fileReaderRead_cases (file : List UInt8) (cb : Request) (sync : r.pos = s.offset ∨ r.pos ≠ cb.offset)
    (got : Option Nat) :
    fileReaderRead file s r cb got = { s with reader := some { r with stage := .exited } } ∨
      ∃ (buf : List UInt8) (offset : Nat), (offset : Int) = cb.offset ∧ buf.length ≤ cb.nbytes.toNat ∧
        buf = (file.drop offset).take buf.length ∧ fileReaderRead file s r cb got = { s with
          offset := offset + buf.length, reader := some { r with pos := offset + buf.length, stage := .holding buf } } := by
  unfold fileReaderRead
  split
  · exact .inl rfl
  · obtain failed | ⟨offset, moved, same⟩ := seek_cases cb sync
    · rw [failed]
      exact .inl rfl
    · rw [moved]
      cases got with
      | none => exact .inl rfl
      | some k =>
        refine .inr ⟨(file.drop offset).take (min k cb.nbytes.toNat), offset, same, ?_, ?_, rfl⟩
        · rw [List.length_take]
          omega
        · rw [List.length_take, List.take_eq_take_iff]
          omega

omit [DecidableEq τ] in
theorem Synced.request {cb : Request} {rest : List Request} {data : List UInt8} {pos : Int} {offset : Nat}
    (synced : Synced offset ⟨cb :: rest, data, pos, .listening⟩) : pos = offset ∨ pos ≠ cb.offset := by
  obtain same | ⟨-, cb', only, other⟩ := synced (by simp)
  · exact .inl same
  · obtain ⟨rfl, -⟩ := List.cons.inj only
    exact .inr other

omit [DecidableEq τ] in
theorem InFlight.child {wait : Wait} {got : Option Nat} {s' : Descriptor τ} (flight : InFlight file c.offset c.nbytes wait r)
    (on : s.reader = some r) (sync : Synced s.offset r)
    (step : fileReader file s got = some s') : ∃ r', s'.reader = some r' ∧ InFlight file c.offset c.nbytes wait r' := by
  simp only [fileReader, on, Option.bind_eq_bind, Option.bind_some] at step
  cases flight with
  | @asked pos stage free =>
    obtain rfl | rfl := free
    · obtain rfl := Option.some.inj step
      obtain left | ⟨buf, offset, same, few, part, read⟩ := fileReaderRead_cases (r := ⟨[], [], pos, .listening⟩) file
        ⟨c.offset, c.nbytes⟩ sync.request got
      · rw [left]
        exact ⟨_, rfl, .gone⟩
      · rw [read]
        refine ⟨_, rfl, .held ⟨by simpa using few, ?_⟩⟩
        dsimp only at same
        rw [← same]
        exact ⟨by omega, by simpa using part⟩
    · obtain rfl := Option.some.inj step
      exact ⟨_, rfl, .asked (.inl rfl)⟩
  | held fits =>
    obtain rfl := Option.some.inj step
    exact ⟨_, rfl, .told fits⟩
  | told fits =>
    obtain rfl := Option.some.inj step
    exact ⟨_, rfl, .sent fits⟩
  | due fits some =>
    obtain rfl := Option.some.inj step
    exact ⟨_, rfl, .here fits some⟩
  | sent | gone | here => cases step

omit [DecidableEq τ] in
theorem fileReader_sync {got : Option Nat} {s' : Descriptor τ} (sync : ∀ r, s.reader = some r → Synced s.offset r)
    (step : fileReader file s got = some s') :
    s'.calls = s.calls ∧ ∀ r, s'.reader = some r → Synced s'.offset r := by
  simp only [fileReader, Option.bind_eq_bind, Option.bind_eq_some_iff] at step
  obtain ⟨r, on, step⟩ := step
  have synced := sync r on
  obtain ⟨control, data, pos, stage⟩ := r
  -- between two requests it knows the offset
  have known : stage ≠ .exited → stage ≠ .listening → pos = s.offset := by
    intro alive busy
    obtain same | ⟨listens, -⟩ := synced alive
    · exact same
    · exact absurd listens busy
  cases stage with
  | listening =>
    cases control with
    | nil => cases step
    | cons cb rest =>
      obtain rfl := Option.some.inj step
      obtain left | ⟨buf, offset, -, -, -, read⟩ :=
        fileReaderRead_cases (r := ⟨rest, data, pos, .listening⟩) file cb synced.request got
      · rw [left]
        refine ⟨rfl, ?_⟩
        rintro r ⟨rfl⟩ alive
        exact absurd rfl alive
      · rw [read]
        refine ⟨rfl, ?_⟩
        rintro r ⟨rfl⟩ -
        left
        simp
  | holding buf =>
    obtain rfl := Option.some.inj step
    refine ⟨rfl, ?_⟩
    rintro r ⟨rfl⟩ -
    exact .inl (known (by simp) (by simp))
  | halfway buf =>
    obtain rfl := Option.some.inj step
    refine ⟨rfl, ?_⟩
    rintro r ⟨rfl⟩ -
    exact .inl (known (by simp) (by simp))
  | exited => cases step

theorem FileInv.finish {r' : Reader} (alone : ∀ u, s.calls u ≠ none → u = t) (sync : Synced s.offset r') (n : Int)
    (buf : List UInt8) : FileInv file (s.finish (some r') t n buf).1 ∧ ∀ u, (s.finish (some r') t n buf).1.calls u = none := by
  have idle : ∀ u, (s.finish (some r') t n buf).1.calls u = none := by
    intro u
    by_cases same : u = t
    · simp [Descriptor.finish, same]
    · rw [show (s.finish (some r') t n buf).1.calls u = s.calls u from Function.update_of_ne same ..]
      by_contra there
      exact same (alone u there)
  refine ⟨⟨?_, fun u v here => absurd (idle u) here, fun u c here => ?_⟩, idle⟩
  · rintro r'' ⟨rfl⟩
    exact sync
  · rw [idle u] at here
    cases here

def Settled (s : Descriptor τ) : Prop := (∀ u, s.calls u = none) → ∀ r, s.reader = some r → r.Quiet

structure Left (file : List UInt8) (offset : Int) (nbytes : Nat) (res : Descriptor τ × FileRet) : Prop where
  inv : FileInv file res.1
  right : ∀ n buf, res.2 = .returned n buf → 0 < n → (buf.length : Int) = n ∧ n ≤ nbytes ∧ Section file offset buf

theorem Turn.left {res : Descriptor τ × FileRet} (turn : Turn file s r t c res) (alone : ∀ u, s.calls u ≠ none → u = t)
    (sync : Synced s.offset r) (positive : 0 < c.nbytes) (small : c.nbytes ≤ filereaderMaxRead) :
    Left file c.offset c.nbytes res ∧ Settled res.1 := by
  cases turn with
  | @blocks r' wait same flight =>
    have others : ∀ u, Function.update s.calls t (some { c with wait := wait }) u ≠ none → u = t := by
      intro u there
      by_contra other
      rw [Function.update_of_ne other] at there
      exact other (alone u there)
    refine ⟨⟨⟨?_, ?_, ?_⟩, by simp [Descriptor.block]⟩, fun idle => ?_⟩
    · rintro r'' ⟨rfl⟩
      exact sync.alike same
    · intro u v here there
      exact (others u here).trans (others v there).symm
    · intro u c' there
      obtain rfl := others u (Option.ne_none_iff_exists'.mpr ⟨c', there⟩)
      obtain rfl : { c with wait := wait } = c' := by simpa [Descriptor.block] using there
      exact ⟨positive, small, r', rfl, flight⟩
    · have this := idle t
      simp [Descriptor.block] at this
  | @returns r' n buf same quiet right =>
    refine ⟨⟨(FileInv.finish alone (sync.alike same) n buf).1, ?_⟩, ?_⟩
    · rintro m out ⟨rfl, rfl⟩ more
      obtain ⟨same, fits⟩ := right more
      have few := fits.few
      exact ⟨same, by omega, fits.part⟩
    · rintro - r'' ⟨rfl⟩
      exact quiet

theorem FileInv.call (inv : FileInv file s) {offset : Int} (clean : Clean s offset) {nbytes : Nat} (forked : Bool)
    (positive : 0 < nbytes) (small : nbytes ≤ filereaderMaxRead) :
    Left file offset nbytes (stxFileRead s t offset nbytes forked) ∧ Settled (stxFileRead s t offset nbytes forked).1 := by
  have alone : ∀ u, s.calls u ≠ none → u = t := fun u there => absurd (clean.alone u) there
  have sends : ∀ r : Reader, r.Quiet → (r.stage ≠ .exited → r.pos = s.offset ∨ r.stage = .listening ∧ r.pos ≠ offset) →
      ∃ r', Synced s.offset r' ∧ Turn file s r' t ⟨offset, nbytes, .send⟩ (sendRequest s r t ⟨offset, nbytes, .send⟩) :=
    fun r quiet known => sendRequest_turn quiet known small
  unfold stxFileRead
  cases on : s.reader with
  | some r =>
    have quiet := clean.quiet r on
    rw [show getFileioData s forked = some r by rw [getFileioData, on]]
    have known : r.stage ≠ .exited → r.pos = s.offset ∨ r.stage = .listening ∧ r.pos ≠ offset := by
      intro alive
      obtain same | ⟨-, cb, waiting, -⟩ := inv.sync r on alive
      · exact .inl same
      · obtain gone | ⟨none, -⟩ := quiet.2
        · exact absurd gone alive
        · rw [none] at waiting
          cases waiting
    obtain ⟨r', synced, turn⟩ := sends r quiet known
    exact turn.left alone synced positive small
  | none =>
    cases forked with
    | true =>
      rw [show getFileioData s true = some ⟨[], [], 0, .listening⟩ by rw [getFileioData, on]; rfl]
      have known : (0 : Int) = s.offset ∨ Stage.listening = .listening ∧ 0 ≠ offset := by
        obtain zero | other := clean.rewound on
        · exact .inl (by rw [zero]; rfl)
        · exact .inr ⟨rfl, other.symm⟩
      obtain ⟨r', synced, turn⟩ := sends ⟨[], [], 0, .listening⟩ ⟨rfl, .inr ⟨rfl, .inl rfl⟩⟩ fun _ => known
      exact turn.left alone synced positive small
    | false =>
      rw [show getFileioData s false = none by rw [getFileioData, on]; rfl]
      refine ⟨⟨⟨by simp [Descriptor.finish], ?_, ?_⟩, by simp [Descriptor.finish]⟩, by simp [Settled, Descriptor.finish]⟩
      all_goals
        intro u v here
        by_cases same : u = t <;> simp [Descriptor.finish, same, clean.alone] at here

theorem FileInv.ready (inv : FileInv file s) (there : s.calls t = some c) {res : Descriptor τ × FileRet}
    (step : stxFileResume s t true = some res) :
    Left file c.offset c.nbytes res ∧ Settled res.1 := by
  obtain ⟨positive, small, r, on, flight⟩ := inv.flight t c there
  have turn : Turn file s r t c res := by
    simp only [stxFileResume, there, on, Option.bind_eq_bind, Option.bind_some] at step
    generalize wait : c.wait = w at flight step
    cases w with
    | send => cases flight
    | length =>
      obtain rfl := Option.some.inj step
      exact readLength_turn flight small
    | data ret =>
      obtain rfl := Option.some.inj step
      exact readData_turn flight rfl
  exact turn.left (fun u here => inv.single u t here (by simp [there])) (inv.sync r on) positive small

theorem FileInv.giveUp (inv : FileInv file s) (there : s.calls t = some c) {res : Descriptor τ × FileRet}
    (step : stxFileResume s t false = some res) : Left file c.offset c.nbytes res := by
  obtain ⟨positive, small, r, on, flight⟩ := inv.flight t c there
  have result : s.finish (some r) t (-1) [] = res := by
    simp only [stxFileResume, there, on, Option.bind_eq_bind, Option.bind_some] at step
    generalize wait : c.wait = w at flight step
    cases w with
    | send => cases flight
    | length | data ret => exact Option.some.inj step
  subst result
  refine ⟨(FileInv.finish (fun u here => inv.single u t here (by simp [there])) (inv.sync r on) (-1) []).1, ?_⟩
  rintro n buf ⟨rfl, rfl⟩ more
  omega

omit [DecidableEq τ] in
theorem FileInv.child (inv : FileInv file s) {got : Option Nat} {s' : Descriptor τ}
    (step : fileReader file s got = some s') : FileInv file s' ∧ (Settled s → Settled s') := by
  obtain ⟨calls, sync⟩ := fileReader_sync inv.sync step
  refine ⟨⟨sync, by rw [calls]; exact inv.single, fun t c there => ?_⟩, fun settled idle => ?_⟩
  · rw [calls] at there
    obtain ⟨positive, small, r, on, flight⟩ := inv.flight t c there
    exact ⟨positive, small, flight.child on (inv.sync r on) step⟩
  · -- all that a quiet process can still do is to write nothing
    rw [calls] at idle
    simp only [fileReader, Option.bind_eq_bind, Option.bind_eq_some_iff] at step
    obtain ⟨⟨control, data, pos, stage⟩, on, step⟩ := step
    obtain ⟨rfl, rfl | ⟨rfl, rfl | rfl⟩⟩ := settled idle _ on
    · cases step
    · cases step
    · obtain rfl := Option.some.inj step
      rintro r ⟨rfl⟩
      exact ⟨rfl, .inr ⟨rfl, .inl rfl⟩⟩

def Starts (ev : FileEvent τ) (offset : Int) : Prop := ∃ t nbytes forked, ev.label = .call t offset nbytes forked

theorem FileInv.step {ev : FileEvent τ} (inv : FileInv file ev.pre) (fired : ev.Fired (fileMachine file))
    (clean : ∀ offset, Starts ev offset → Clean ev.pre offset) :
    FileInv file ev.post ∧ Paired file ev ∧ ((∀ t, ev.label ≠ .giveUp t) → Settled ev.pre → Settled ev.post) := by
  obtain ⟨pre, label, out, post⟩ := ev
  have enabled := fired.enabled
  have step := fired.step
  simp only [fileMachine] at enabled step
  dsimp only at inv
  -- a step that a blocked call takes is about the request in its frame
  have resumed : ∀ {t c}, pre.calls t = some c → (label = .ready t ∨ label = .giveUp t) →
      Left file c.offset c.nbytes (post, out) → Paired file ⟨pre, label, out, post⟩ := by
    rintro t c there this left offset nbytes n buf asked returned more
    have same : request (⟨pre, label, out, post⟩ : FileEvent τ) = some (c.offset, c.nbytes) := by
      obtain rfl | rfl := this <;> simp [request, there]
    rw [same] at asked
    obtain ⟨rfl, rfl⟩ := Prod.mk.inj (Option.some.inj asked)
    exact left.right n buf returned more
  cases label with
  | call t offset nbytes forked =>
    simp only [fileEnabled, Bool.and_eq_true, decide_eq_true_eq] at enabled
    obtain ⟨left, settled⟩ := inv.call (t := t) (clean offset ⟨t, nbytes, forked, rfl⟩) forked enabled.1.2 enabled.2
    have same : stxFileRead pre t offset nbytes forked = (post, out) := Option.some.inj step
    rw [same] at left settled
    refine ⟨left.inv, ?_, fun _ _ => settled⟩
    rintro offset' nbytes' n buf ⟨rfl, rfl⟩ returned more
    exact left.right n buf returned more
  | ready t =>
    obtain ⟨c, there⟩ := Option.isSome_iff_exists.mp enabled
    obtain ⟨left, settled⟩ := inv.ready there step
    exact ⟨left.inv, resumed there (.inl rfl) left, fun _ _ => settled⟩
  | giveUp t =>
    obtain ⟨c, there⟩ := Option.isSome_iff_exists.mp enabled
    have left := inv.giveUp there step
    exact ⟨left.inv, resumed there (.inr rfl) left, fun never => absurd rfl (never t)⟩
  | child got =>
    simp only [fileStep, Option.map_eq_some_iff, Prod.mk.injEq] at step
    obtain ⟨s', taken, rfl, rfl⟩ := step
    obtain ⟨kept, settled⟩ := inv.child taken
    exact ⟨kept, by simp [Paired, request], fun _ => settled⟩

omit [DecidableEq τ] in
theorem FileInv.start (file : List UInt8) (started : FileStarted s) : FileInv file s ∧ Settled s := by
  obtain ⟨off, idle⟩ := started
  refine ⟨⟨by simp [off], fun t u here => absurd (idle t) here, fun t c here => ?_⟩, by simp [Settled, off]⟩
  rw [idle] at here
  cases here

/-- The order of the calls that leaves nothing behind: none starts while another one is in
progress, or after one that was timed out or interrupted. -/
structure Orderly (past : List (FileEvent τ)) : Prop where
  alone : ∀ ev ∈ past, ∀ offset, Starts ev offset → ∀ t, ev.pre.calls t = none
  rewound : ∀ ev ∈ past, ∀ offset, Starts ev offset → ev.pre.reader = none → ev.pre.offset = 0 ∨ offset ≠ 0
  calm : ∀ ev older offset, (ev :: older) <:+ past → Starts ev offset → ∀ n ∈ older, ∀ t, n.label ≠ .giveUp t

omit [DecidableEq τ] in
theorem Orderly.older {ev : FileEvent τ} {past : List (FileEvent τ)} (orderly : Orderly (ev :: past)) : Orderly past where
  alone n member := orderly.alone n (List.mem_cons_of_mem _ member)
  rewound n member := orderly.rewound n (List.mem_cons_of_mem _ member)
  calm n older offset part := orderly.calm n older offset (part.trans (List.suffix_cons ..))

theorem Orderly.clean {past : List (FileEvent τ)} (orderly : Orderly past) (run : FileRun file past s) :
    ∀ ev ∈ past, ∀ offset, Starts ev offset → Clean ev.pre offset := by
  have all : Orderly past → (∀ ev ∈ past, ∀ offset, Starts ev offset → Clean ev.pre offset) ∧ FileInv file s ∧
      ((∀ n ∈ past, ∀ t, n.label ≠ .giveUp t) → Settled s) := by
    refine run.induct (P := fun past s => Orderly past → (∀ ev ∈ past, ∀ offset, Starts ev offset → Clean ev.pre offset) ∧
      FileInv file s ∧ ((∀ n ∈ past, ∀ t, n.label ≠ .giveUp t) → Settled s)) ?_ ?_
    · intro s started _
      obtain ⟨inv, settled⟩ := FileInv.start file started
      exact ⟨by simp, inv, fun _ => settled⟩
    · intro past ev before ih fired orderly
      obtain ⟨clean, inv, settled⟩ := ih orderly.older
      have this : ∀ offset, Starts ev offset → Clean ev.pre offset := by
        intro offset starts
        have here := List.mem_cons_self (a := ev) (l := past)
        have idle := orderly.alone ev here offset starts
        refine ⟨idle, orderly.rewound ev here offset starts, settled ?_ idle⟩
        exact orderly.calm ev past offset (List.suffix_refl _) starts
      obtain ⟨inv', -, kept⟩ := inv.step fired this
      refine ⟨fun n member => ?_, inv', fun never => ?_⟩
      · obtain rfl | old := List.mem_cons.mp member
        · exact this
        · exact clean n old
      · exact kept (never ev (List.mem_cons_self ..)) (settled fun n member => never n (List.mem_cons_of_mem _ member))
  exact (all orderly).1

/-- In a run in which every call starts clean, every call that returns n > 0 has got the n
bytes of the file at its own offset. -/
theorem replies_paired (file : List UInt8) (past : List (FileEvent τ)) (s : Descriptor τ) (run : FileRun file past s)
    (clean : ∀ ev ∈ past, ∀ offset, Starts ev offset → Clean ev.pre offset) : ∀ ev ∈ past, Paired file ev := by
  have both : (∀ ev ∈ past, ∀ offset, Starts ev offset → Clean ev.pre offset) → FileInv file s ∧ ∀ ev ∈ past, Paired file ev := by
    refine run.induct (P := fun past s => (∀ ev ∈ past, ∀ offset, Starts ev offset → Clean ev.pre offset) →
      FileInv file s ∧ ∀ ev ∈ past, Paired file ev) ?_ ?_
    · intro s started _
      exact ⟨(FileInv.start file started).1, by simp⟩
    · intro past ev before ih fired clean
      obtain ⟨inv, paired⟩ := ih fun n member => clean n (List.mem_cons_of_mem _ member)
      obtain ⟨kept, this, -⟩ := inv.step fired (clean ev (List.mem_cons_self ..))
      refine ⟨kept, fun n member => ?_⟩
      obtain rfl | old := List.mem_cons.mp member
      · exact this
      · exact paired n old
  exact (both clean).2

def opened : Descriptor Bool := ⟨0, none, fun _ => none⟩

theorem opened_started : FileStarted opened := ⟨rfl, fun _ => rfl⟩

/-- Two calls, one after the other, for the two halves of a file. -/
theorem replies_paired_one_by_one :
    ∃ (past : List (FileEvent Bool)) (s : Descriptor Bool), FileRun [1, 2, 3, 4] past s ∧
      (past.map (·.out)).take 3 = [.returned 2 [3, 4], .working, .working] ∧ ∀ ev ∈ past, Paired [1, 2, 3, 4] ev := by
  obtain ⟨past, s, run, seen⟩ := Run.found (M := fileMachine (τ := Bool) [1, 2, 3, 4])
    [.call true 0 2 true, .child (some 2), .child none, .ready true, .child none, .ready true, .call false 2 2 true,
      .child (some 2), .child none, .child none, .ready false]
    opened_started
    (p := fun past _ => decide ((past.map (·.out)).take 3 = [.returned 2 [3, 4], .working, .working]) &&
      past.all fun ev => match ev.label with
        | .call _ offset _ _ => decide ((∀ t, ev.pre.calls t = none) ∧ (ev.pre.reader = none → ev.pre.offset = 0 ∨ offset ≠ 0) ∧
            ∀ r ∈ ev.pre.reader, r.data = [] ∧
              (r.stage = .exited ∨ r.control = [] ∧ (r.stage = .listening ∨ r.stage = .halfway [])))
        | _ => true)
    (by decide +kernel)
  simp only [Bool.and_eq_true, decide_eq_true_eq, List.all_eq_true] at seen
  refine ⟨past, s, run, seen.1, replies_paired [1, 2, 3, 4] past s run ?_⟩
  rintro ev member offset ⟨t, nbytes, forked, label⟩
  have clean := seen.2 ev member
  rw [label] at clean
  obtain ⟨alone, rewound, quiet⟩ := of_decide_eq_true clean
  exact ⟨alone, rewound, quiet⟩

/-- A call that is interrupted leaves its reply to the next one. -/
theorem stale_reply_returned :
    ∃ (past : List (FileEvent Bool)) (s : Descriptor Bool), FileRun [1, 2, 3, 4] past s ∧
      past.map (·.label) = [.call true 2 2 true, .child none, .child none, .child (some 2), .giveUp true, .call true 0 2 true] ∧
      past.map (·.out) = [.returned 2 [1, 2], .working, .working, .working, .returned (-1) [], .blocked] ∧
      ¬ ∀ ev ∈ past, Paired [1, 2, 3, 4] ev := by
  obtain ⟨past, s, run, seen⟩ := Run.found (M := fileMachine (τ := Bool) [1, 2, 3, 4])
    [.call true 0 2 true, .giveUp true, .child (some 2), .child none, .child none, .call true 2 2 true]
    opened_started
    (p := fun past _ => decide (past.map (·.label) =
        [.call true 2 2 true, .child none, .child none, .child (some 2), .giveUp true, .call true 0 2 true] ∧
      past.map (·.out) = [.returned 2 [1, 2], .working, .working, .working, .returned (-1) [], .blocked]))
    (by decide +kernel)
  obtain ⟨labels, outs⟩ := of_decide_eq_true seen
  refine ⟨past, s, run, labels, outs, fun paired => ?_⟩
  cases past with
  | nil => cases labels
  | cons ev older =>
    have label : ev.label = .call true 2 2 true := (List.cons.inj labels).1
    have out : ev.out = .returned 2 [1, 2] := (List.cons.inj outs).1
    have wrong := paired ev (List.mem_cons_self ..) 2 2 2 [1, 2] (by rw [request, label]) out (by decide)
    exact absurd wrong.2.2.2 (by decide)

end StateThreads.Fileio
