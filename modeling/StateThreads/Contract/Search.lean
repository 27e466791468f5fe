import StateThreads.Dns.Search

/-! The names built by _stx_dns_getaddrlist: which writes stay in the array, and what
query_domain is given. -/
namespace StateThreads.Dns

def cstr (name : List UInt8) : List UInt8 := name.takeWhile (· ≠ 0)

theorem cstr_append_zero {front : List UInt8} (nonzero : ∀ c ∈ front, c ≠ 0) (rest : List UInt8) :
    cstr (front ++ 0 :: rest) = front := by
  rw [cstr, List.takeWhile_append_of_pos (by simpa using nonzero)]
  simp

def joined (host d : CString) : List UInt8 := host.bytes ++ dot :: d.bytes

theorem joined_nonzero (host d : CString) : ∀ c ∈ joined host d, c ≠ 0 := by
  intro c member
  simp only [joined, List.mem_append, List.mem_cons] at member
  rcases member with member | rfl | member
  · exact host.nonzero c member
  · decide
  · exact d.nonzero c member

theorem take_succ_set {name : List UInt8} {n : Nat} (inside : n < name.length) (c : UInt8) :
    (name.set n c).take (n + 1) = name.take n ++ [c] := by
  rw [List.set_eq_take_append_cons_drop, if_pos inside, List.take_append, List.length_take]
  have left : n + 1 - min n name.length = 1 := by omega
  simp [left, List.take_take]

theorem copyName_spec (cs : List UInt8) {name : List UInt8} {n : Nat} (dots : Nat) (size : name.length = maxDname)
    (room : n ≤ maxLen) :
    copyName cs name n dots = some (name.take n ++ cs.take (maxLen - n) ++ name.drop (n + (cs.take (maxLen - n)).length),
      n + (cs.take (maxLen - n)).length, dots + (cs.take (maxLen - n)).count dot) := by
  induction cs generalizing name n dots with
  | nil => simp [copyName]
  | cons c cs ih =>
    rw [copyName]
    split
    · rename_i below
      have inside : n < name.length := by
        simp only [maxLen] at below
        omega
      obtain ⟨k, left⟩ : ∃ k, maxLen - n = k + 1 := ⟨maxLen - n - 1, by omega⟩
      have next : maxLen - (n + 1) = k := by omega
      rw [store, if_pos inside, Option.bind_eq_bind, Option.bind_some, ih _ (by simpa using size) (by omega), next, left]
      simp only [List.take_succ_cons, List.length_cons, Option.some.injEq, Prod.mk.injEq]
      refine ⟨?_, by omega, ?_⟩
      · rw [take_succ_set inside, List.drop_set_of_lt (by omega), List.append_assoc, Nat.add_right_comm, Nat.add_assoc]
        simp
      · rw [List.count_cons]
        split <;> simp_all
        omega
    · have full : maxLen - n = 0 := by omega
      simp [full]

def filled (front : List UInt8) (d : CString) (rest : List UInt8) : List UInt8 :=
  front ++ (d.bytes.take (maxLen - front.length) ++ List.replicate (maxLen - front.length - d.bytes.length) 0) ++ rest

theorem sizeT_of_le {n : Nat} (room : n ≤ maxLen) : sizeT (maxLen - n) = maxLen - n := by
  have small : maxLen - n < 2 ^ 64 := by
    simp only [maxLen, maxDname]
    omega
  rw [sizeT, ← Int.ofNat_sub room, BitVec.ofInt_natCast, BitVec.toNat_ofNat, Nat.mod_eq_of_lt small]

theorem strncpy_front {front name : List UInt8} (size : name.length = maxDname) (room : front.length ≤ maxLen)
    (same : name.take front.length = front) (d : CString) :
    strncpy name front.length d.bytes (sizeT (maxLen - front.length)) = some (filled front d (name.drop maxLen)) := by
  have inside : front.length + (maxLen - front.length) ≤ name.length := by
    simp only [maxLen] at room ⊢
    omega
  have whole : front.length + (maxLen - front.length) = maxLen := by omega
  rw [strncpy, sizeT_of_le room, if_pos inside, same, whole, filled]

theorem filled_length {front : List UInt8} (room : front.length ≤ maxLen) (d : CString) (rest : List UInt8) :
    (filled front d rest).length = maxLen + rest.length := by
  simp only [filled, List.length_append, List.length_take, List.length_replicate]
  omega

theorem filled_drop {front rest : List UInt8} (room : front.length ≤ maxLen) (d : CString) :
    (filled front d rest).drop maxLen = rest := by
  have length := filled_length room d []
  rw [filled] at length ⊢
  rw [List.append_nil, List.length_nil, Nat.add_zero] at length
  exact List.drop_left' length

theorem filled_take (front rest : List UInt8) (d : CString) : (filled front d rest).take front.length = front := by
  rw [filled, List.append_assoc, List.take_left' rfl]

def ResState.reached (res : ResState) : List CString := if res.dnsrch then res.search else res.search.take 1

variable {σ : Type}

theorem searchLoop_spec (query : σ → Queried → σ × Verdict) (dnsrch : Bool) (front : List UInt8)
    (room : front.length ≤ maxLen) (ds : List CString) (s : σ) {name : List UInt8} (size : name.length = maxDname)
    (same : name.take front.length = front) :
    ∃ passed s' done, searchLoop query dnsrch front.length ds s name = some (passed, s', done) ∧
      ∀ p ∈ passed, p.1 ∈ (if dnsrch then ds else ds.take 1) ∧ p.2 = filled front p.1 (name.drop maxLen) := by
  induction ds generalizing s name with
  | nil => exact ⟨[], s, none, rfl, by simp⟩
  | cons d ds ih =>
    have one : ∀ p ∈ [(d, filled front d (name.drop maxLen))], p.1 ∈ (if dnsrch then d :: ds else (d :: ds).take 1) ∧
        p.2 = filled front p.1 (name.drop maxLen) := by
      cases dnsrch <;> simp
    rw [searchLoop, strncpy_front size room same, Option.bind_eq_bind, Option.bind_some]
    generalize query s (.array (filled front d (name.drop maxLen))) = answer
    obtain ⟨s₁, verdict⟩ := answer
    cases verdict with
    | found => exact ⟨_, _, _, rfl, one⟩
    | interrupted => exact ⟨_, _, _, rfl, one⟩
    | failed =>
      cases dnsrch with
      | false => exact ⟨_, _, _, rfl, one⟩
      | true =>
        have size' : (filled front d (name.drop maxLen)).length = maxDname := by
          rw [filled_length room, List.length_drop, size]
          rfl
        obtain ⟨passed, s', done, run, all⟩ := ih s₁ size' (filled_take front _ d)
        rw [filled_drop room] at all
        simp only [if_true] at all ⊢
        rw [run]
        refine ⟨_, s', done, rfl, fun p member => ?_⟩
        rcases List.mem_cons.mp member with rfl | later
        · exact ⟨List.mem_cons_self .., rfl⟩
        · exact ⟨List.mem_cons_of_mem _ (all p later).1, (all p later).2⟩

theorem tryNames_spec {res : ResState} {query : σ → Queried → σ × Verdict} {host : CString} {name : List UInt8}
    {n dots : Nat} {trailingDot : Bool} {P : CString × List UInt8 → Prop}
    (search : ∀ s, ∃ passed s' done, searchDomains res query name n dots trailingDot s = some (passed, s', done) ∧
      ∀ p ∈ passed, P p) (s : σ) :
    ∃ passed s' ok, tryNames res query host name n dots trailingDot s = some (passed, s', ok) ∧ ∀ p ∈ passed, P p := by
  unfold tryNames
  dsimp only
  split
  · exact ⟨_, _, _, rfl, by simp⟩
  · split
    · exact ⟨_, _, _, rfl, by simp⟩
    · generalize (if res.ndots ≤ dots then (query s (.asIs host)).1 else s) = s₁
      obtain ⟨passed, s', done, run, all⟩ := search s₁
      rw [Option.bind_eq_bind, run, Option.bind_some]
      cases done with
      | some ok => exact ⟨_, _, _, rfl, all⟩
      | none =>
        dsimp only
        split
        · exact ⟨_, _, _, rfl, all⟩
        · exact ⟨_, _, _, rfl, all⟩

theorem getaddrlist_eq {res : ResState} (query : σ → Queried → σ × Verdict) {host : CString} {name : List UInt8}
    (size : name.length = maxDname) (init : res.init = true) (udp : res.usevc = false) (some_ : host.bytes ≠ []) (s : σ) :
    stxDnsGetaddrlist res query host true name s =
      tryNames res query host (host.bytes.take maxLen ++ name.drop (host.bytes.take maxLen).length)
        (host.bytes.take maxLen).length ((host.bytes.take maxLen).count dot)
        ((host.bytes.take maxLen).getLast? = some dot) s := by
  have kept : host.bytes.take maxLen ≠ [] := by
    rw [Ne, List.take_eq_nil_iff]
    simp [some_, maxLen, maxDname]
  have copied := copyName_spec host.bytes 0 size (Nat.zero_le maxLen)
  rw [Nat.sub_zero, List.take_zero, List.nil_append, Nat.zero_add, Nat.zero_add] at copied
  have last : (host.bytes.take maxLen ++ name.drop (host.bytes.take maxLen).length)[(host.bytes.take maxLen).length - 1]? =
      (host.bytes.take maxLen).getLast? := by
    have pos := List.length_pos_of_ne_nil kept
    rw [List.getElem?_append_left (by omega), List.getLast?_eq_getElem?]
  have ends := List.getLast?_eq_some_getLast kept
  simp only [stxDnsGetaddrlist, init, udp, some_, Bool.not_true, Bool.or_self, decide_false, Bool.false_eq_true, if_false,
    copied, Option.bind_eq_bind, Option.bind_some, last, ends, Option.some.injEq]

theorem store_dot (kept : List UInt8) {name : List UInt8} (size : name.length = maxDname) (room : kept.length ≤ maxLen) :
    ∃ name', store (kept ++ name.drop kept.length) kept.length dot = some name' ∧ name'.length = maxDname ∧
      name'.take (kept ++ [dot]).length = kept ++ [dot] ∧ (kept.length < maxLen → name'.drop maxLen = name.drop maxLen) := by
  have length : (kept ++ name.drop kept.length).length = maxDname := by
    simp only [maxLen] at room
    rw [List.length_append, List.length_drop]
    omega
  have inside : kept.length < (kept ++ name.drop kept.length).length := by
    simp only [maxLen, maxDname] at room length
    omega
  refine ⟨_, if_pos inside, by simpa using length, ?_, fun below => ?_⟩
  · rw [List.length_append, List.length_singleton, take_succ_set inside, List.take_left' rfl]
  · rw [List.drop_set_of_lt below, List.drop_append, List.drop_eq_nil_of_le (by omega), List.nil_append, List.drop_drop]
    congr 1
    omega

def refuse (s : Unit) (_ : Queried) : Unit × Verdict := (s, .failed)

theorem searchLoop_refused (dnsrch : Bool) (front : List UInt8) (room : front.length ≤ maxLen) (ds : List CString)
    {name : List UInt8} (size : name.length = maxDname) (same : name.take front.length = front) :
    ∃ passed, searchLoop refuse dnsrch front.length ds () name = some (passed, (), none) ∧
      ∀ d ∈ (if dnsrch then ds else ds.take 1), (d, filled front d (name.drop maxLen)) ∈ passed := by
  induction ds generalizing name with
  | nil => exact ⟨[], rfl, by simp⟩
  | cons d ds ih =>
    rw [searchLoop, strncpy_front size room same, Option.bind_eq_bind, Option.bind_some]
    cases dnsrch with
    | false => exact ⟨_, rfl, by simp⟩
    | true =>
      have size' : (filled front d (name.drop maxLen)).length = maxDname := by
        rw [filled_length room, List.length_drop, size]
        rfl
      obtain ⟨passed, run, all⟩ := ih size' (filled_take front _ d)
      rw [filled_drop room] at all
      simp only [if_true] at all ⊢
      simp only [refuse, run, Option.bind_eq_bind, Option.bind_some]
      refine ⟨_, rfl, fun x member => ?_⟩
      rcases List.mem_cons.mp member with rfl | later
      · exact List.mem_cons_self ..
      · exact List.mem_cons_of_mem _ (all x later)

theorem tryNames_refused {res : ResState} {host : CString} {name : List UInt8} {n dots : Nat} {trailingDot : Bool} :
    tryNames res refuse host name n dots trailingDot () =
      (searchDomains res refuse name n dots trailingDot ()).map fun r => (r.1, (), r.2.2.getD false) := by
  simp only [tryNames, refuse, reduceCtorEq, decide_false, Bool.and_false, Bool.false_eq_true, if_false, ite_self]
  cases searchDomains res refuse name n dots trailingDot () with
  | none => rfl
  | some r =>
    obtain ⟨passed, -, done⟩ := r
    cases done with
    | some ok => rfl
    | none => simp

/-- Every write is inside the array, and each array passed is terminated and holds host,
dot and domain if it has room for them. -/
def NamesKept (res : ResState) (host : CString) : Prop :=
  ∀ (σ : Type) (query : σ → Queried → σ × Verdict) (opened : Bool) (name : List UInt8) (s : σ), name.length = maxDname →
    ∃ passed s' ok, stxDnsGetaddrlist res query host opened name s = some (passed, s', ok) ∧
      ∀ p ∈ passed, 0 ∈ p.2 ∧ ((joined host p.1).length ≤ maxDname - 1 → cstr p.2 = joined host p.1)

/-- A call for the host comes to the search list, if its queries fail. -/
def ResState.searching (res : ResState) (host : CString) : Bool :=
  res.init && !res.usevc && host.bytes ≠ [] &&
    res.searches ((host.bytes.take maxLen).count dot) ((host.bytes.take maxLen).getLast? = some dot)

theorem filled_room {host d : CString} (room : (joined host d).length < maxLen) (rest : List UInt8) :
    0 ∈ filled (host.bytes ++ [dot]) d rest ∧ cstr (filled (host.bytes ++ [dot]) d rest) = joined host d := by
  simp only [joined, List.length_append, List.length_cons] at room
  obtain ⟨k, zeros⟩ : ∃ k, maxLen - (host.bytes ++ [dot]).length - d.bytes.length = k + 1 :=
    ⟨maxLen - (host.bytes ++ [dot]).length - d.bytes.length - 1, by simp; omega⟩
  have whole : d.bytes.take (maxLen - (host.bytes ++ [dot]).length) = d.bytes :=
    List.take_of_length_le (by simp; omega)
  have shape : filled (host.bytes ++ [dot]) d rest = joined host d ++ 0 :: (List.replicate k 0 ++ rest) := by
    rw [filled, whole, zeros, List.replicate_succ]
    simp [joined]
  rw [shape]
  exact ⟨by simp, cstr_append_zero (joined_nonzero host d) _⟩

theorem filled_full {host d : CString} (full : maxLen ≤ (joined host d).length) :
    0 ∉ filled (host.bytes ++ [dot]) d [1] := by
  simp only [joined, List.length_append, List.length_cons] at full
  have none_ : maxLen - (host.bytes ++ [dot]).length - d.bytes.length = 0 := by simp; omega
  intro member
  simp only [filled, none_, List.replicate_zero, List.append_nil, List.mem_append, List.mem_singleton] at member
  rcases member with (member | zero) | zero
  · rcases member with member | zero
    · exact host.nonzero 0 member rfl
    · exact absurd zero (by decide)
  · exact d.nonzero 0 (List.mem_of_mem_take zero) rfl
  · exact absurd zero (by decide)

theorem searchDomains_kept {res : ResState} {host : CString} {name : List UInt8} {dots : Nat} {trailingDot : Bool}
    (size : name.length = maxDname)
    (fits : res.searches dots trailingDot = true → ∀ d ∈ res.reached, (joined host d).length < maxDname - 1)
    (query : σ → Queried → σ × Verdict) (s : σ) :
    ∃ passed s' done, searchDomains res query (host.bytes.take maxLen ++ name.drop (host.bytes.take maxLen).length)
        (host.bytes.take maxLen).length dots trailingDot s = some (passed, s', done) ∧
      ∀ p ∈ passed, 0 ∈ p.2 ∧ ((joined host p.1).length ≤ maxDname - 1 → cstr p.2 = joined host p.1) := by
  obtain ⟨name', stored, size', front, -⟩ := store_dot (host.bytes.take maxLen) size (by simp)
  rw [searchDomains]
  split
  · rename_i entered
    rw [Option.bind_eq_bind, stored, Option.bind_some]
    by_cases room : host.bytes.length < maxLen
    · have kept : host.bytes.take maxLen = host.bytes := List.take_of_length_le (by omega)
      rw [kept] at front ⊢
      rw [List.length_append, List.length_singleton] at front
      obtain ⟨passed, s', done, run, all⟩ := searchLoop_spec query res.dnsrch (host.bytes ++ [dot])
        (by simp; omega) res.search s size' (by simpa using front)
      rw [List.length_append, List.length_singleton] at run
      refine ⟨passed, s', done, run, fun p member => ?_⟩
      obtain ⟨reached, array⟩ := all p member
      obtain ⟨zero, string⟩ := filled_room (fits entered p.1 reached) (name'.drop maxLen)
      rw [array]
      exact ⟨zero, fun _ => string⟩
    · have none_ : res.search = [] := by
        by_contra some_
        obtain ⟨d, ds, list⟩ := List.exists_cons_of_ne_nil some_
        have reached : d ∈ res.reached := by
          rw [ResState.reached, list]
          split <;> simp
        have short := fits entered d reached
        simp only [joined, List.length_append, List.length_cons, maxLen] at short room
        omega
      rw [none_]
      exact ⟨[], s, none, rfl, by simp⟩
  · exact ⟨[], s, none, rfl, by simp⟩

/-- When the search comes to a domain without room for it and a zero, the array passed is
not terminated, or the count of strncpy wraps round and it writes outside the array. -/
theorem not_kept {res : ResState} {host d : CString} (searching : res.searching host = true) (reached : d ∈ res.reached)
    (full : maxLen ≤ (joined host d).length) : ¬ NamesKept res host := by
  simp only [ResState.searching, Bool.and_eq_true, Bool.not_eq_true', decide_eq_true_eq] at searching
  obtain ⟨⟨⟨init, udp⟩, some_⟩, entered⟩ := searching
  have size : (List.replicate maxDname (1 : UInt8)).length = maxDname := by simp
  intro kept
  obtain ⟨passed, s', ok, run, all⟩ := kept Unit refuse true _ () size
  obtain ⟨name', stored, size', front, rest⟩ := store_dot (host.bytes.take maxLen) size (by simp)
  rw [getaddrlist_eq refuse size init udp some_, tryNames_refused, searchDomains, if_pos entered, Option.bind_eq_bind,
    stored, Option.bind_some] at run
  by_cases room : host.bytes.length < maxLen
  · have whole : host.bytes.take maxLen = host.bytes := List.take_of_length_le (by omega)
    rw [whole] at front rest run
    obtain ⟨passed', looped, comes⟩ := searchLoop_refused res.dnsrch (host.bytes ++ [dot]) (by simp; omega) res.search
      size' front
    rw [List.length_append, List.length_singleton] at looped
    rw [looped] at run
    cases run
    have there := comes d reached
    rw [rest room] at there
    have tail : (List.replicate maxDname (1 : UInt8)).drop maxLen = [1] := by
      rw [List.drop_replicate]
      rfl
    rw [tail] at there
    exact filled_full full (all _ there).1
  · have count : (host.bytes.take maxLen).length = maxLen := by simp; omega
    rw [count] at run
    have some_domain : res.search ≠ [] := by
      intro none_
      simp [ResState.reached, none_] at reached
    obtain ⟨e, ds, list⟩ := List.exists_cons_of_ne_nil some_domain
    have wraps : sizeT ((maxLen : Int) - (maxLen + 1 : Nat)) = 2 ^ 64 - 1 := by decide
    have outside : strncpy name' (maxLen + 1) e.bytes (2 ^ 64 - 1) = none := if_neg (by
      rw [size']
      simp [maxLen, maxDname])
    rw [list, searchLoop, wraps, outside] at run
    cases run

def letters (n : Nat) : CString := ⟨List.replicate n 97, by simp⟩

theorem joined_letters (m n : Nat) : (joined (letters m) (letters n)).length = m + (n + 1) := by
  simp [joined, letters]

def oneDomain : ResState := ⟨true, false, true, true, 1, [letters 23]⟩

/-- A host of 1000 letters makes a name of just MAXDNAME - 1 letters, which is not terminated;
with a host of 1024 letters strncpy writes outside the array. -/
theorem search_names_overrun :
    ((joined (letters 1000) (letters 23)).length ≤ maxDname - 1 ∧ ¬ NamesKept oneDomain (letters 1000)) ∧
      ¬ NamesKept oneDomain (letters 1024) := by
  have here : letters 23 ∈ oneDomain.reached := by decide +kernel
  refine ⟨⟨?_, ?_⟩, ?_⟩
  · rw [joined_letters]
    decide
  · exact not_kept (by decide +kernel) here (by rw [joined_letters]; decide)
  · exact not_kept (by decide +kernel) here (by rw [joined_letters]; decide)

/-- The names are kept in the array and terminated exactly when no domain that the search
may come to fills it. -/
theorem search_names_kept (res : ResState) (host : CString) :
    NamesKept res host ↔
      (res.searching host = true → ∀ d ∈ res.reached, host.bytes.length + 1 + d.bytes.length < maxDname - 1) := by
  have length : ∀ d, (joined host d).length = host.bytes.length + 1 + d.bytes.length := fun d => by
    simp [joined]
    omega
  constructor
  · intro kept searching d reached
    by_contra full
    exact not_kept searching reached (by rw [length]; simpa [maxLen] using full) kept
  · intro fits σ query opened name s size
    by_cases early : (!res.init || res.usevc || decide (host.bytes = []) || !opened) = true
    · exact ⟨[], s, false, if_pos early, by simp⟩
    · simp only [Bool.or_eq_true, Bool.not_eq_true', decide_eq_true_eq, not_or, Bool.not_eq_false, Bool.not_eq_true] at early
      obtain ⟨⟨⟨init, udp⟩, some_⟩, rfl⟩ := early
      rw [getaddrlist_eq query size init udp some_]
      apply tryNames_spec
      apply searchDomains_kept size
      intro entered d reached
      rw [length]
      exact fits (by simp [ResState.searching, init, udp, some_, entered]) d reached

end StateThreads.Dns
