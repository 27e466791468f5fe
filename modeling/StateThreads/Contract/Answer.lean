import StateThreads.Dns.Answer

/-! What parse_answer reports: the addresses in the answer section of a message, which is
described here without the code that walks through it. -/
namespace StateThreads.Dns

/-- The encoded length of a name, where label bytes are left of a label. A name ends with a
zero or with a pointer of two bytes. -/
def nameLen : Nat → List UInt8 → Option Nat
  | _, [] => none
  | label + 1, _ :: bs => (nameLen label bs).map (· + 1)
  | 0, b :: bs =>
    if b = 0 then some 1
    else if b < 64 then (nameLen b.toNat bs).map (· + 1)
    else if 192 ≤ b ∧ bs ≠ [] then some 2
    else none

/-- What is relied on of the resolver library: the encoded length, or -1. dn_skipname does
not refuse a name that is complete; dn_expand may. -/
structure NameLib.Sound (lib : NameLib) : Prop where
  skipname : ∀ buf cp n, nameLen 0 (buf.drop cp) = some n → lib.dnSkipname buf cp = some n
  expand : ∀ buf cp n, lib.dnExpand buf cp = some n → nameLen 0 (buf.drop cp) = some n

structure Record where
  type : Nat
  rdata : List UInt8
deriving DecidableEq, Repr

def Record.isA (r : Record) : Bool := r.type = typeA

def fieldsAt (buf : List UInt8) (cp : Nat) : Option (Nat × Nat) := do
  let type ← getShort buf cp
  let size ← getShort buf (cp + 8)
  some (type, size)

def recordAt (buf : List UInt8) (cp : Nat) : Option (Record × Nat) := do
  let n ← nameLen 0 (buf.drop cp)
  let (type, size) ← fieldsAt buf (cp + n)
  if cp + n + 10 + size ≤ buf.length then
    some (⟨type, (buf.drop (cp + n + 10)).take size⟩, cp + n + 10 + size)
  else none

def records (buf : List UInt8) : Nat → Nat → List Record
  | 0, _ => []
  | k + 1, cp =>
    match recordAt buf cp with
    | some (r, next) => r :: records buf k next
    | none => []

def questionsEnd (buf : List UInt8) : Nat → Nat → Option Nat
  | 0, cp => some cp
  | q + 1, cp => (nameLen 0 (buf.drop cp)).bind fun n => questionsEnd buf q (cp + n + qFixedSz)

def answerSection (buf : List UInt8) : List Record :=
  ((hostShort buf qdcountAt).bind fun q => questionsEnd buf q headerSize).elim []
    (records buf ((hostShort buf ancountAt).getD 0))

/-- The A records of the answer section that there is room for. -/
def reportable (buf : List UInt8) (room : Nat) : List Record := ((answerSection buf).filter Record.isA).take room

/-- The records that the loop meets from cp on when i addresses are stored; none if one of
them is malformed. -/
def walk (lib : NameLib) (room : Nat) : Nat → List UInt8 → Nat → Nat → Option (List Record)
  | 0, _, _, _ => some []
  | k + 1, buf, cp, i =>
    if cp < buf.length ∧ i < room then
      let buf := setHostShort buf ancountAt k
      (lib.dnExpand buf cp).bind fun n =>
        if buf.length ≤ cp + n + 10 then none
        else (fieldsAt buf (cp + n)).bind fun f =>
          let r : Record := ⟨f.1, (buf.drop (cp + n + 10)).take f.2⟩
          if r.isA then
            if 4 < f.2 ∨ buf.length < cp + n + 10 + f.2 then none
            else (walk lib room k buf (cp + n + 10 + f.2) (i + 1)).map (r :: ·)
          else (walk lib room k buf (cp + n + 10 + f.2) i).map (r :: ·)
    else some []

/- Reads below eoa. -/

theorem getShort_some (buf : List UInt8) (i : Nat) (inside : i + 1 < buf.length) : ∃ n, getShort buf i = some n := by
  have first : i < buf.length := by omega
  simp [getShort, List.getElem?_eq_getElem inside, List.getElem?_eq_getElem first]

theorem getLong_some {buf : List UInt8} {i : Nat} (inside : i + 3 < buf.length) : ∃ n, getLong buf i = some n := by
  obtain ⟨high, upper⟩ := getShort_some buf i (by omega)
  obtain ⟨low, lower⟩ := getShort_some buf (i + 2) (by omega)
  simp [getLong, upper, lower]

theorem fieldsAt_some (buf : List UInt8) (cp : Nat) (inside : cp + 9 < buf.length) :
    ∃ type size, fieldsAt buf cp = some (type, size) ∧ getShort buf cp = some type ∧ getShort buf (cp + 8) = some size := by
  obtain ⟨type, first⟩ := getShort_some buf cp (by omega)
  obtain ⟨size, second⟩ := getShort_some buf (cp + 8) (by omega)
  exact ⟨type, size, by simp [fieldsAt, first, second], first, second⟩

theorem timeToLive_some (buf : List UInt8) (type cp : Nat) (ttl : Int) (inside : cp + 3 < buf.length) :
    ∃ ttl', timeToLive buf type cp ttl = some ttl' ∧ (type ≠ typeA → ttl' = ttl) := by
  obtain ⟨n, long⟩ := getLong_some inside
  by_cases address : type = typeA
  · exact ⟨_, by rw [timeToLive, if_pos address, long, Option.map_some], fun other => absurd address other⟩
  · exact ⟨ttl, by simp [timeToLive, address], fun _ => rfl⟩

theorem copyRdata_some (buf : List UInt8) (cp n : Nat) {addrs : List InAddr} {i : Nat} (inside : i < addrs.length)
    (below : cp + n ≤ buf.length) : ∃ a, copyRdata buf cp n addrs i = some (addrs.set i a) ∧
      (((buf.drop cp).take n).length = 4 → a = addrOf ((buf.drop cp).take n)) := by
  refine ⟨addrOf ((buf.drop cp).take n ++ (bytesOf addrs[i]).drop n), ?_, fun whole => ?_⟩
  · simp [copyRdata, List.getElem?_eq_getElem inside, below]
  · have four : n = 4 := by
      simp only [List.length_take, List.length_drop] at whole
      omega
    have none_ : (bytesOf addrs[i]).drop 4 = [] := rfl
    rw [four, none_, List.append_nil]

@[simp] theorem setHostShort_length (buf : List UInt8) (i n : Nat) : (setHostShort buf i n).length = buf.length := by
  simp [setHostShort]

theorem setHostShort_drop (buf : List UInt8) {i cp : Nat} (n : Nat) (header : i + 1 < cp) :
    (setHostShort buf i n).drop cp = buf.drop cp := by
  rw [setHostShort, List.drop_set_of_lt header, List.drop_set_of_lt (by omega)]

structure Stored (room i : Nat) (addrs : List InAddr) (ttl : Int) (walked : Option (List Record)) (p : Parsed) : Prop where
  length : p.addrs.length = addrs.length
  before : ∀ j < i, p.addrs[j]? = addrs[j]?
  refused : walked = none → p.ok = false ∧ p.numAddrs = room
  accepted : ∀ recs, walked = some recs → p.ok = true ∧ p.numAddrs = i + (recs.filter Record.isA).length ∧
    (∀ j r, (recs.filter Record.isA)[j]? = some r → r.rdata.length = 4 → p.addrs[i + j]? = some (addrOf r.rdata)) ∧
    (recs.filter Record.isA = [] → p.ttl = ttl)

theorem Stored.stop (room i : Nat) (addrs : List InAddr) (ttl : Int) :
    Stored room i addrs ttl (some []) ⟨true, i, addrs, ttl⟩ where
  length := rfl
  before _ _ := rfl
  refused := by simp
  accepted := by
    rintro recs ⟨rfl⟩
    simp

theorem Stored.fail (room i : Nat) (addrs : List InAddr) (ttl ttl' : Int) :
    Stored room i addrs ttl none ⟨false, room, addrs, ttl'⟩ where
  length := rfl
  before _ _ := rfl
  refused _ := ⟨rfl, rfl⟩
  accepted := by simp

theorem Stored.other {room i : Nat} {addrs : List InAddr} {ttl : Int} {walked : Option (List Record)} {p : Parsed}
    {r : Record} (other : r.isA = false) (rest : Stored room i addrs ttl walked p) :
    Stored room i addrs ttl (walked.map (r :: ·)) p where
  length := rest.length
  before := rest.before
  refused none_ := rest.refused (Option.map_eq_none_iff.mp none_)
  accepted := by
    intro recs met
    obtain ⟨later, walked, rfl⟩ := Option.map_eq_some_iff.mp met
    rw [List.filter_cons_of_neg (by simp [other])]
    exact rest.accepted later walked

theorem Stored.address {room i : Nat} {addrs : List InAddr} {ttl ttl' : Int} {walked : Option (List Record)} {p : Parsed}
    {r : Record} {a : InAddr} (address : r.isA = true) (whole : r.rdata.length = 4 → a = addrOf r.rdata)
    (inside : i < addrs.length) (rest : Stored room (i + 1) (addrs.set i a) ttl' walked p) :
    Stored room i addrs ttl (walked.map (r :: ·)) p where
  length := by simpa using rest.length
  before j below := by
    rw [rest.before j (by omega), List.getElem?_set_ne (by omega)]
  refused none_ := rest.refused (Option.map_eq_none_iff.mp none_)
  accepted := by
    intro recs met
    obtain ⟨later, walked, rfl⟩ := Option.map_eq_some_iff.mp met
    obtain ⟨ok, count, stored, -⟩ := rest.accepted later walked
    rw [List.filter_cons_of_pos address]
    refine ⟨ok, by rw [count, List.length_cons]; omega, ?_, by simp⟩
    intro j q there size
    cases j with
    | zero =>
      obtain rfl : r = q := by simpa using there
      rw [Nat.add_zero, rest.before i (by omega), List.getElem?_set_self inside, whole size]
    | succ j =>
      rw [List.getElem?_cons_succ] at there
      rw [← stored j q there size]
      congr 1
      omega

theorem parseRecords_stored (lib : NameLib) {room : Nat} (k : Nat) (buf : List UInt8) (cp : Nat) {i : Nat}
    {addrs : List InAddr} (ttl : Int) (size : addrs.length = room) (room_ : i ≤ room) :
    ∃ p, parseRecords lib room k buf cp i addrs ttl = some p ∧ Stored room i addrs ttl (walk lib room k buf cp i) p := by
  induction k generalizing buf cp i addrs ttl with
  | zero => exact ⟨_, rfl, .stop ..⟩
  | succ k ih =>
    rw [parseRecords, walk]
    by_cases goes : cp < buf.length ∧ i < room
    · rw [if_pos goes, if_pos goes]
      generalize setHostShort buf ancountAt k = buf'
      dsimp only
      cases named : lib.dnExpand buf' cp with
      | none => exact ⟨_, rfl, .fail ..⟩
      | some n =>
        rw [Option.bind_some]
        dsimp only
        by_cases fixed : buf'.length ≤ cp + n + 10
        · rw [if_pos fixed, if_pos fixed]
          exact ⟨_, rfl, .fail ..⟩
        · rw [if_neg fixed, if_neg fixed]
          obtain ⟨type, length, fields, first, second⟩ := fieldsAt_some buf' (cp + n) (by omega)
          obtain ⟨ttl', time, same⟩ := timeToLive_some buf' type (cp + n + 4) ttl (by omega)
          simp only [fields, first, second, time, Option.bind_eq_bind, Option.bind_some]
          by_cases address : type = typeA
          · have isA : Record.isA ⟨type, (buf'.drop (cp + n + 10)).take length⟩ = true := by simp [Record.isA, address]
            rw [if_pos address, if_pos isA]
            by_cases wrong : 4 < length ∨ buf'.length < cp + n + 10 + length
            · rw [if_pos wrong, if_pos wrong]
              exact ⟨_, rfl, .fail ..⟩
            · rw [if_neg wrong, if_neg wrong]
              have inside : i < addrs.length := by omega
              obtain ⟨a, copied, whole⟩ := copyRdata_some buf' (cp + n + 10) length inside (by omega)
              rw [copied, Option.bind_some]
              have same : (addrs.set i a).length = room := by simpa using size
              have more : i + 1 ≤ room := by omega
              obtain ⟨p, run, rest⟩ := ih buf' (cp + n + 10 + length) ttl' same more
              exact ⟨p, run, rest.address isA whole inside⟩
          · have isA : Record.isA ⟨type, (buf'.drop (cp + n + 10)).take length⟩ = false := by simp [Record.isA, address]
            rw [if_neg address, if_neg (by simp [isA])]
            obtain rfl := same address
            obtain ⟨p, run, rest⟩ := ih buf' (cp + n + 10 + length) ttl' size room_
            exact ⟨p, run, rest.other isA⟩
    · rw [if_neg goes, if_neg goes]
      exact ⟨_, rfl, .stop ..⟩

def SameBody (buf buf' : List UInt8) : Prop := buf'.length = buf.length ∧ buf'.drop headerSize = buf.drop headerSize

theorem SameBody.drop {buf buf' : List UInt8} (same : SameBody buf buf') {cp : Nat} (body : headerSize ≤ cp) :
    buf'.drop cp = buf.drop cp := by
  obtain ⟨k, rfl⟩ : ∃ k, cp = headerSize + k := ⟨cp - headerSize, by omega⟩
  rw [← List.drop_drop, ← List.drop_drop, same.2]

theorem SameBody.set {buf buf' : List UInt8} (same : SameBody buf buf') {i : Nat} (n : Nat) (header : i + 1 < headerSize) :
    SameBody buf (setHostShort buf' i n) := by
  rw [SameBody, setHostShort_length, setHostShort_drop _ n header]
  exact same

theorem SameBody.getShort {buf buf' : List UInt8} (same : SameBody buf buf') {cp : Nat} (body : headerSize ≤ cp) :
    getShort buf' cp = getShort buf cp := by
  have byte : ∀ j, headerSize ≤ j → buf'[j]? = buf[j]? := by
    intro j body
    have heads := congrArg List.head? (same.drop body)
    rwa [List.head?_drop, List.head?_drop] at heads
  rw [Dns.getShort, Dns.getShort, byte cp body, byte (cp + 1) (by omega)]

theorem SameBody.fieldsAt {buf buf' : List UInt8} (same : SameBody buf buf') {cp : Nat} (body : headerSize ≤ cp) :
    fieldsAt buf' cp = fieldsAt buf cp := by
  rw [Dns.fieldsAt, Dns.fieldsAt, same.getShort body, same.getShort (by omega)]

theorem walk_stops {lib : NameLib} {room k : Nat} {buf : List UInt8} {cp i : Nat} {recs : List Record}
    (run : walk lib room k buf cp i = some recs) (stop : ¬ (cp < buf.length ∧ i < room)) : recs = [] := by
  cases k with
  | zero => cases run; rfl
  | succ k =>
    rw [walk, if_neg stop] at run
    cases run; rfl

theorem walk_cons {lib : NameLib} {room k : Nat} {buf : List UInt8} {cp i : Nat} {recs : List Record}
    (run : walk lib room (k + 1) buf cp i = some recs) (goes : cp < buf.length ∧ i < room) :
    ∃ n type size later, lib.dnExpand (setHostShort buf ancountAt k) cp = some n ∧
      fieldsAt (setHostShort buf ancountAt k) (cp + n) = some (type, size) ∧
      recs = ⟨type, ((setHostShort buf ancountAt k).drop (cp + n + 10)).take size⟩ :: later ∧
      ((type = typeA ∧ cp + n + 10 + size ≤ buf.length ∧
          walk lib room k (setHostShort buf ancountAt k) (cp + n + 10 + size) (i + 1) = some later) ∨
        (type ≠ typeA ∧ walk lib room k (setHostShort buf ancountAt k) (cp + n + 10 + size) i = some later)) := by
  rw [walk, if_pos goes] at run
  have length := setHostShort_length buf ancountAt k
  generalize setHostShort buf ancountAt k = buf' at run length ⊢
  obtain ⟨n, named, run⟩ := Option.bind_eq_some_iff.mp run
  split at run
  · cases run
  · obtain ⟨⟨type, size⟩, fields, run⟩ := Option.bind_eq_some_iff.mp run
    dsimp only at run
    refine ⟨n, type, size, ?_⟩
    by_cases address : type = typeA
    · rw [if_pos (by simp [Record.isA, address])] at run
      split at run
      · cases run
      · obtain ⟨later, walked, rfl⟩ := Option.map_eq_some_iff.mp run
        exact ⟨later, named, fields, rfl, .inl ⟨address, by omega, walked⟩⟩
    · rw [if_neg (by simp [Record.isA, address])] at run
      obtain ⟨later, walked, rfl⟩ := Option.map_eq_some_iff.mp run
      exact ⟨later, named, fields, rfl, .inr ⟨address, walked⟩⟩

theorem walk_addresses {lib : NameLib} (sound : lib.Sound) {room k : Nat} {buf buf' : List UInt8} {cp i : Nat}
    {recs : List Record} (same : SameBody buf buf') (body : headerSize ≤ cp) (run : walk lib room k buf' cp i = some recs) :
    recs.filter Record.isA = ((records buf k cp).filter Record.isA).take (room - i) := by
  induction k generalizing buf' cp i recs with
  | zero => cases run; simp [records]
  | succ k ih =>
    by_cases goes : cp < buf'.length ∧ i < room
    · obtain ⟨n, type, size, later, named, fields, rfl, next⟩ := walk_cons run goes
      have same' := same.set (i := ancountAt) k (by decide)
      have length := setHostShort_length buf' ancountAt k
      generalize setHostShort buf' ancountAt k = buf'' at named fields next same' length ⊢
      have name := sound.expand _ _ _ named
      rw [same'.drop body] at name
      rw [same'.fieldsAt (by omega)] at fields
      rw [same'.drop (by omega)]
      have here : recordAt buf cp = if cp + n + 10 + size ≤ buf.length then
          some (⟨type, (buf.drop (cp + n + 10)).take size⟩, cp + n + 10 + size) else none := by
        simp [recordAt, name, fields]
      rcases next with ⟨rfl, inside, walked⟩ | ⟨other, walked⟩
      · rw [← same.1, if_pos inside] at here
        rw [records, here]
        obtain ⟨m, left⟩ : ∃ m, room - i = m + 1 := ⟨room - i - 1, by omega⟩
        have rest := ih same' (by omega) walked
        rw [show room - (i + 1) = m by omega] at rest
        dsimp only
        rw [List.filter_cons_of_pos rfl, List.filter_cons_of_pos rfl, left, List.take_succ_cons, rest]
      · have notA : ¬ (Record.isA ⟨type, (buf.drop (cp + n + 10)).take size⟩ = true) := by simp [Record.isA, other]
        rw [List.filter_cons_of_neg notA]
        by_cases inside : cp + n + 10 + size ≤ buf.length
        · rw [if_pos inside] at here
          rw [records, here]
          dsimp only
          rw [List.filter_cons_of_neg notA]
          exact ih same' (by omega) walked
        · rw [if_neg inside] at here
          rw [records, here, walk_stops walked (by rw [same'.1]; omega)]
          simp
    · rw [walk_stops run goes]
      by_cases inside : cp < buf'.length
      · have full : room - i = 0 := by omega
        simp [full]
      · have none_ : buf.drop cp = [] := List.drop_eq_nil_of_le (by rw [← same.1]; omega)
        simp [records, recordAt, none_, nameLen]

theorem hostShort_set (buf : List UInt8) {i j : Nat} (n : Nat) (other : i + 1 < j ∨ j + 1 < i) :
    hostShort (setHostShort buf i n) j = hostShort buf j := by
  have byte : ∀ l, l ≠ i → l ≠ i + 1 → (setHostShort buf i n)[l]? = buf[l]? := by
    intro l first second
    rw [setHostShort, List.getElem?_set_ne (by omega), List.getElem?_set_ne (by omega)]
  rw [hostShort, hostShort, byte j (by omega) (by omega), byte (j + 1) (by omega) (by omega)]

theorem parseQuestions_frame (lib : NameLib) (q : Nat) {buf buf' : List UInt8} {cp : Nat} (same : SameBody buf buf')
    (count : hostShort buf' ancountAt = hostShort buf ancountAt) (body : headerSize ≤ cp) :
    SameBody buf (parseQuestions lib q buf' cp).1 ∧ hostShort (parseQuestions lib q buf' cp).1 ancountAt = hostShort buf ancountAt ∧
      headerSize ≤ (parseQuestions lib q buf' cp).2 := by
  induction q generalizing buf' cp with
  | zero => exact ⟨same, count, body⟩
  | succ q ih =>
    have same' := same.set (i := qdcountAt) q (by decide)
    have count' := (hostShort_set buf' (i := qdcountAt) (j := ancountAt) q (.inl (by decide))).trans count
    rw [parseQuestions]
    split
    · exact ih same' count' (by omega)
    · exact ih same' count' (by simp only [qFixedSz]; omega)

theorem parseQuestions_end {lib : NameLib} (sound : lib.Sound) {buf buf' : List UInt8} {q cp e : Nat}
    (same : SameBody buf buf') (body : headerSize ≤ cp) (ends : questionsEnd buf q cp = some e) :
    (parseQuestions lib q buf' cp).2 = e := by
  induction q generalizing buf' cp with
  | zero => cases ends; rfl
  | succ q ih =>
    obtain ⟨n, name, ends⟩ := Option.bind_eq_some_iff.mp ends
    have same' := same.set (i := qdcountAt) q (by decide)
    rw [← same'.drop body] at name
    rw [parseQuestions]
    rw [sound.skipname _ _ _ name]
    exact ih same' (by omega) ends

def met (lib : NameLib) (buf : List UInt8) (room : Nat) : Option (List Record) := do
  let qdcount ← hostShort buf qdcountAt
  let (buf, cp) := parseQuestions lib qdcount buf headerSize
  let ancount ← hostShort buf ancountAt
  walk lib room ancount buf cp 0

def questionsComplete (buf : List UInt8) : Bool :=
  ((hostShort buf qdcountAt).bind fun q => questionsEnd buf q headerSize).isSome

theorem hostShort_some (buf : List UInt8) (i : Nat) (inside : i + 1 < buf.length) : ∃ n, hostShort buf i = some n := by
  have first : i < buf.length := by omega
  simp [hostShort, List.getElem?_eq_getElem inside, List.getElem?_eq_getElem first]

theorem parseAnswer_stored (lib : NameLib) {buf : List UInt8} {room : Nat} {addrs : List InAddr}
    (header : headerSize ≤ buf.length) (size : addrs.length = room) :
    ∃ p, parseAnswer lib buf addrs room = some p ∧ Stored room 0 addrs (-1) (met lib buf room) p := by
  simp only [headerSize] at header
  obtain ⟨q, questions⟩ := hostShort_some buf qdcountAt (by simp only [qdcountAt]; omega)
  obtain ⟨a, answers⟩ := hostShort_some buf ancountAt (by simp only [ancountAt]; omega)
  obtain ⟨-, count, -⟩ := parseQuestions_frame lib q (⟨rfl, rfl⟩ : SameBody buf buf) rfl (le_refl _)
  obtain ⟨p, run, stored⟩ := parseRecords_stored lib a (parseQuestions lib q buf headerSize).1
    (parseQuestions lib q buf headerSize).2 (-1) size (Nat.zero_le room)
  refine ⟨p, ?_, ?_⟩
  · simp only [parseAnswer, questions, count, answers, Option.bind_eq_bind, Option.bind_some, run]
  · simpa only [met, questions, count, answers, Option.bind_eq_bind, Option.bind_some] using stored

theorem met_reportable {lib : NameLib} (sound : lib.Sound) {buf : List UInt8} {room : Nat} {recs : List Record}
    (walked : met lib buf room = some recs) (complete : questionsComplete buf = true) :
    recs.filter Record.isA = reportable buf room := by
  obtain ⟨e, ends⟩ := Option.isSome_iff_exists.mp complete
  simp only [met, Option.bind_eq_bind, Option.bind_eq_some_iff] at walked
  obtain ⟨q, questions, a, answers, walked⟩ := walked
  obtain ⟨same, count, body⟩ := parseQuestions_frame lib q (⟨rfl, rfl⟩ : SameBody buf buf) rfl (le_refl _)
  rw [reportable, answerSection, ends, Option.elim_some, ← count, answers, Option.getD_some]
  rw [questions, Option.bind_some] at ends
  rw [walk_addresses sound same body walked, parseQuestions_end sound ⟨rfl, rfl⟩ (le_refl _) ends, Nat.sub_zero]

theorem reportable_incomplete {buf : List UInt8} (incomplete : questionsComplete buf = false) (room : Nat) :
    reportable buf room = [] := by
  have none_ := Option.isSome_eq_false_iff.mp incomplete
  rw [Option.isNone_iff_eq_none] at none_
  rw [reportable, answerSection, none_]
  simp

/-- parse_answer ends, reads below eoa and writes inside the list of addresses; if it
returns 0, it reports the complete data of the A records of the answer section. -/
def ParsesRight (lib : NameLib) (buf : List UInt8) (room : Nat) : Prop :=
  ∀ addrs : List InAddr, addrs.length = room → ∃ p, parseAnswer lib buf addrs room = some p ∧ p.addrs.length = room ∧
    (p.ok = true → p.numAddrs = (reportable buf room).length ∧
      ∀ (i : Nat) (r : Record), (reportable buf room)[i]? = some r → r.rdata.length = 4 ∧ p.addrs[i]? = some (addrOf r.rdata))

def plainLib : NameLib := ⟨fun buf cp => nameLen 0 (buf.drop cp), fun buf cp => nameLen 0 (buf.drop cp)⟩

theorem plainLib_sound : plainLib.Sound := ⟨fun _ _ _ name => name, fun _ _ _ name => name⟩

def shortReply : List UInt8 :=
  [0x12, 0x34, 0x81, 0x80, 1, 0, 1, 0, 0, 0, 0, 0, 1, 97, 0, 0, 1, 0, 1] ++
    [0xc0, 12, 0, 1, 0, 1, 0, 0, 0, 60, 0, 2, 10, 0]

def oddReply : List UInt8 :=
  [0x12, 0x34, 0x81, 0x80, 1, 0, 1, 0, 0, 0, 0, 0, 0x80, 0, 0] ++ [0, 0, 1, 0, 1, 0, 0, 0, 60, 0, 4, 10, 0, 0, 1]

/-- Both replies are taken for an answer with one address. -/
theorem parse_answer_incomplete :
    (¬ ∀ lib : NameLib, lib.Sound → ∀ buf room, headerSize ≤ buf.length → buf.length ≤ 1024 → ParsesRight lib buf room) ∧
      ¬ ParsesRight plainLib shortReply 1 ∧ ¬ ParsesRight plainLib oddReply 1 := by
  have short : ¬ ParsesRight plainLib shortReply 1 := by
    intro right
    obtain ⟨p, run, -, reports⟩ := right [0] rfl
    have result : parseAnswer plainLib shortReply [0] 1 = some ⟨true, 1, [10], 60⟩ := by decide +kernel
    obtain rfl := Option.some.inj (run.symm.trans result)
    have record : (reportable shortReply 1)[0]? = some ⟨1, [10, 0]⟩ := by decide +kernel
    exact absurd ((reports rfl).2 0 _ record).1 (by decide)
  have odd : ¬ ParsesRight plainLib oddReply 1 := by
    intro right
    obtain ⟨p, run, -, reports⟩ := right [0] rfl
    have result : parseAnswer plainLib oddReply [0] 1 = some ⟨true, 1, [0x100000a], 60⟩ := by decide +kernel
    obtain rfl := Option.some.inj (run.symm.trans result)
    have nothing : (reportable oddReply 1).length = 0 := by decide +kernel
    have number := (reports rfl).1
    rw [nothing] at number
    cases number
  exact ⟨fun claim => short (claim plainLib plainLib_sound shortReply 1 (by decide) (by decide)), short, odd⟩

/-- parse_answer meets its contract unless it comes to the end of its walk over an A record
with less than four bytes of data, or over an A record behind an incomplete question. -/
theorem parse_answer_reports (lib : NameLib) (sound : lib.Sound) (buf : List UInt8) (room : Nat)
    (header : headerSize ≤ buf.length) :
    ParsesRight lib buf room ↔ ∀ recs, met lib buf room = some recs → ∀ r ∈ recs, r.isA = true →
      r.rdata.length = 4 ∧ questionsComplete buf = true := by
  constructor
  · intro right recs walked r member address
    obtain ⟨p, run, stored⟩ := parseAnswer_stored lib header (List.length_replicate : (List.replicate room (0 : InAddr)).length = room)
    obtain ⟨p', run', -, reports⟩ := right (List.replicate room 0) (by simp)
    obtain rfl : p = p' := Option.some.inj (run.symm.trans run')
    obtain ⟨ok, count, -⟩ := stored.accepted recs walked
    obtain ⟨number, each⟩ := reports ok
    have there : r ∈ recs.filter Record.isA := List.mem_filter.mpr ⟨member, address⟩
    have complete : questionsComplete buf = true := by
      by_contra incomplete
      rw [reportable_incomplete (by simpa using incomplete), count] at number
      have pos := List.length_pos_of_mem there
      simp only [List.length_nil] at number
      omega
    rw [met_reportable sound walked complete] at there
    obtain ⟨i, here⟩ := List.mem_iff_getElem?.mp there
    exact ⟨(each i r here).1, complete⟩
  · intro whole addrs size
    obtain ⟨p, run, stored⟩ := parseAnswer_stored lib header size
    refine ⟨p, run, stored.length.trans size, fun ok => ?_⟩
    cases walked : met lib buf room with
    | none => exact absurd (stored.refused walked).1 (by simp [ok])
    | some recs =>
      obtain ⟨-, count, each, -⟩ := stored.accepted recs walked
      have same : recs.filter Record.isA = reportable buf room := by
        cases complete : questionsComplete buf with
        | true => exact met_reportable sound walked complete
        | false =>
          rw [reportable_incomplete complete, List.filter_eq_nil_iff]
          intro r member address
          exact absurd (whole recs walked r member address).2 (by simp [complete])
      rw [same, Nat.zero_add] at count
      refine ⟨count, fun i r there => ?_⟩
      rw [← same] at there
      obtain ⟨member, address⟩ := List.mem_filter.mp (List.mem_of_getElem? there)
      have four := (whole recs walked r member address).1
      exact ⟨four, by simpa using each i r there four⟩

def fullReply : List UInt8 :=
  [0x12, 0x34, 0x81, 0x80, 1, 0, 3, 0, 0, 0, 0, 0, 1, 97, 0, 0, 1, 0, 1] ++
    [0xc0, 12, 0, 5, 0, 1, 0, 0, 0, 60, 0, 3, 1, 98, 0] ++ [1, 98, 0, 0, 1, 0, 1, 0, 0, 0, 60, 0, 4, 10, 0, 0, 1] ++
    [1, 98, 0, 0, 1, 0, 1, 0, 0, 0, 60, 0, 4, 10, 0, 0, 2]

theorem parse_answer_reports_two : plainLib.Sound ∧ headerSize ≤ fullReply.length ∧
    (reportable fullReply 8).map Record.rdata = [[10, 0, 0, 1], [10, 0, 0, 2]] ∧ ParsesRight plainLib fullReply 8 := by
  refine ⟨plainLib_sound, by decide, by decide +kernel, ?_⟩
  rw [parse_answer_reports plainLib plainLib_sound fullReply 8 (by decide)]
  intro recs walked r member
  have all : (met plainLib fullReply 8).all fun recs => recs.all fun r => decide (r.isA = true →
      r.rdata.length = 4 ∧ questionsComplete fullReply = true) := by decide +kernel
  rw [walked] at all
  exact of_decide_eq_true (List.all_eq_true.mp all r member)

end StateThreads.Dns
