import StateThreads.Contract.Answer
import StateThreads.Contract.Dns
import StateThreads.Dns.Query

/-! What a successful resolution yields, over every run of calls with whatever the name
servers send. -/
namespace StateThreads.Dns
open Lru LabelledRun

section
variable {σ : Type} {query : σ → Queried → σ × Verdict}

theorem searchLoop_found {dnsrch : Bool} {n : Nat} {ds : List CString} {s s' : σ} {name : List UInt8}
    {passed : List (CString × List UInt8)} (run : searchLoop query dnsrch n ds s name = some (passed, s', some true)) :
    ∃ s₀ q, query s₀ q = (s', .found) := by
  induction ds generalizing s name passed with
  | nil => cases run
  | cons d ds ih =>
    rw [searchLoop] at run
    obtain ⟨name', -, run⟩ := Option.bind_eq_some_iff.mp run
    split at run
    · rename_i s₁ asked
      cases run
      exact ⟨_, _, asked⟩
    · cases run
    · split at run
      · obtain ⟨⟨later, rest⟩, looped, run⟩ := Option.bind_eq_some_iff.mp run
        cases run
        exact ih looped
      · cases run

theorem searchDomains_found {res : ResState} {n dots : Nat} {trailingDot : Bool} {s s' : σ} {name : List UInt8}
    {passed : List (CString × List UInt8)}
    (run : searchDomains res query name n dots trailingDot s = some (passed, s', some true)) :
    ∃ s₀ q, query s₀ q = (s', .found) := by
  rw [searchDomains] at run
  split at run
  · obtain ⟨name', -, run⟩ := Option.bind_eq_some_iff.mp run
    exact searchLoop_found run
  · cases run

theorem getaddrlist_found {res : ResState} {host : CString} {opened : Bool} {name : List UInt8} {s s' : σ}
    {passed : List (CString × List UInt8)}
    (run : stxDnsGetaddrlist res query host opened name s = some (passed, s', true)) :
    ∃ s₀ q, query s₀ q = (s', .found) := by
  rw [stxDnsGetaddrlist] at run
  split at run
  · cases run
  · simp only [Option.bind_eq_bind, Option.bind_eq_some_iff] at run
    obtain ⟨⟨name', n, dots⟩, -, last, -, run⟩ := run
    dsimp only [tryNames] at run
    split at run
    · rename_i found
      cases run
      simp only [Bool.and_eq_true, decide_eq_true_eq] at found
      exact ⟨s, .asIs host, Prod.ext rfl found.2⟩
    · split at run
      · cases run
      · obtain ⟨⟨later, s₁, done⟩, searched, run⟩ := Option.bind_eq_some_iff.mp run
        cases done with
        | some ok =>
          cases run
          exact searchDomains_found searched
        | none =>
          dsimp only at run
          split at run
          · cases run
          · obtain ⟨rfl, rfl, found⟩ : later = passed ∧ (query s₁ (.asIs host)).1 = s' ∧
                decide ((query s₁ (.asIs host)).2 = .found) = true := by simpa using run
            exact ⟨s₁, .asIs host, Prod.ext rfl (of_decide_eq_true found)⟩

end

theorem waitReply_mem {id : List UInt8} {ds : List (List UInt8)} {buf d : List UInt8} (got : waitReply id ds buf = some d) :
    ∃ e ∈ ds, d = e.take maxPacket := by
  induction ds generalizing buf with
  | nil => cases got
  | cons e ds ih =>
    rw [waitReply] at got
    split at got
    · cases got
      exact ⟨e, List.mem_cons_self .., rfl⟩
    · obtain ⟨x, member, same⟩ := ih got
      exact ⟨x, List.mem_cons_of_mem _ member, same⟩

/-- The datagram is taken for the reply to the query of the attempt, and parsed with success. -/
structure Accepts (lib : NameLib) (room : Nat) (a : Attempt) (d : List UInt8) (p : Parsed) : Prop where
  matched : waitReply (a.query.take 2) a.datagrams a.query = some d
  header : headerSize ≤ d.length
  answers : answers (hostOrder d) = true
  parsed : parseAnswer lib (hostOrder d) a.addrs room = some p
  ok : p.ok = true

theorem queryDomain_found {lib : NameLib} {room : Nat} {before : Bool} {as : List Attempt} {m : List UInt8} {p : Parsed}
    (run : queryDomain lib room before as = .found m p) : ∃ a ∈ as, ∃ d, m = hostOrder d ∧ Accepts lib room a d p := by
  induction as generalizing before with
  | nil => cases run
  | cons a as ih =>
    have later : ∀ {b : Bool}, queryDomain lib room b as = .found m p →
        ∃ x ∈ a :: as, ∃ d, m = hostOrder d ∧ Accepts lib room x d p := by
      intro b rest
      obtain ⟨x, member, found⟩ := ih rest
      exact ⟨x, List.mem_cons_of_mem _ member, found⟩
    rw [queryDomain] at run
    split at run
    · cases run
    · split at run
      · cases run
      · exact later run
      · split at run
        · split at run
          · cases run
          · exact later run
        · rename_i d got
          split at run
          · exact later run
          · rename_i usable
            simp only [not_or, Nat.not_lt, Bool.not_eq_false] at usable
            split at run
            · cases run
            · rename_i q parsed
              split at run
              · rename_i ok
                obtain ⟨rfl, rfl⟩ : hostOrder d = m ∧ q = p := by simpa using run
                exact ⟨a, List.mem_cons_self .., d, rfl, got, usable.1, usable.2, parsed, ok⟩
              · exact later run

/-- The reply that a call for the frame takes, when it returns 0. -/
def Call.Takes (lib : NameLib) (c : Call) (f : Frame) (m : List UInt8) (p : Parsed) : Prop :=
  ∃ as ∈ c.traffic, ∃ a ∈ as, ∃ d, m = hostOrder d ∧ Accepts lib f.limit a d p

theorem Call.result_found {lib : NameLib} {c : Call} {f : Frame} {reply : Reply} (run : c.result lib f = some (some reply)) :
    ∃ m p, c.Takes lib f m p ∧ reply = ⟨p.addrs.take p.numAddrs, p.ttl⟩ := by
  simp only [Call.result, Option.bind_eq_bind, Option.bind_eq_some_iff] at run
  obtain ⟨⟨passed, s, ok⟩, called, run⟩ := run
  dsimp only at run
  split at run
  · cases run
  · split at run
    · rename_i zero
      subst zero
      obtain ⟨⟨m, p⟩, taken, same⟩ := Option.map_eq_some_iff.mp run
      obtain ⟨s₀, q, asked⟩ := getaddrlist_found called
      refine ⟨m, p, ?_, (Option.some.inj same).symm⟩
      rw [ask] at asked
      split at asked
      · cases asked
      · rename_i m' p' found
        obtain rfl : _ = s := congrArg Prod.fst asked
        obtain ⟨rfl, rfl⟩ : m' = m ∧ p' = p := by simpa using taken
        obtain ⟨a, member, d, same, accepts⟩ := queryDomain_found found
        refine ⟨_, ?_, a, member, d, same, accepts⟩
        rw [List.getD_eq_getElem?_getD] at member ⊢
        cases there : c.traffic[s₀.queries]? with
        | none => simp [there] at member
        | some as => exact List.mem_of_getElem? there
      · rename_i i _
        cases i <;> cases asked
    · cases run

/- What is in a reply that is taken. -/

theorem ntohsAt_length (buf : List UInt8) (i : Nat) : (ntohsAt buf i).length = buf.length := by
  unfold ntohsAt
  split <;> simp

theorem hostOrder_length (d : List UInt8) : (hostOrder d).length = d.length := by
  rw [hostOrder, ntohsAt_length, ntohsAt_length]

theorem met_room {lib : NameLib} (sound : lib.Sound) {buf : List UInt8} {room : Nat} {recs : List Record}
    (walked : met lib buf room = some recs) : (recs.filter Record.isA).length ≤ room := by
  simp only [met, Option.bind_eq_bind, Option.bind_eq_some_iff] at walked
  obtain ⟨q, -, a, -, walked⟩ := walked
  obtain ⟨same, -, body⟩ := parseQuestions_frame lib q (⟨rfl, rfl⟩ : SameBody buf buf) rfl (le_refl _)
  rw [walk_addresses sound same body walked, List.length_take]
  omega

/-- The reply holds an address, its addresses are complete, and so are its questions; if it
is one that parse_answer does not refuse. -/
def telling (lib : NameLib) (room : Nat) (m : List UInt8) : Bool :=
  m.length < headerSize || !answers m || (met lib m room).all fun recs =>
    recs.any Record.isA && recs.all fun r => !r.isA || (r.rdata.length = 4 && questionsComplete m)

theorem telling_spec {lib : NameLib} {room : Nat} {m : List UInt8} {recs : List Record} (tells : telling lib room m = true)
    (header : headerSize ≤ m.length) (usable : answers m = true) (walked : met lib m room = some recs) :
    (∃ r ∈ recs, r.isA = true) ∧ ∀ r ∈ recs, r.isA = true → r.rdata.length = 4 ∧ questionsComplete m = true := by
  simp only [telling, usable, walked, Nat.not_lt.mpr header, decide_false, Bool.not_true, Bool.or_self, Bool.false_or,
    Option.all_some, Bool.and_eq_true, List.any_eq_true] at tells
  refine ⟨tells.1, fun r member address => ?_⟩
  simpa [address] using List.all_eq_true.mp tells.2 r member

section
variable {lib : NameLib} {room : Nat} {a : Attempt} {d : List UInt8} {p : Parsed}

theorem Accepts.fits (accepts : Accepts lib room a d p) (sound : lib.Sound) (size : a.addrs.length = room) :
    p.addrs.length = room ∧ p.numAddrs ≤ room ∧ (p.ttl ≤ 0 ∨ 0 < p.numAddrs) := by
  obtain ⟨p', run, stored⟩ := parseAnswer_stored lib (by rw [hostOrder_length]; exact accepts.header) size
  obtain rfl : p' = p := Option.some.inj (run.symm.trans accepts.parsed)
  cases walked : met lib (hostOrder d) room with
  | none => exact absurd (stored.refused walked).1 (by simp [accepts.ok])
  | some recs =>
    obtain ⟨-, count, -, ttl⟩ := stored.accepted recs walked
    rw [Nat.zero_add] at count
    refine ⟨stored.length.trans size, by rw [count]; exact met_room sound walked, ?_⟩
    by_cases none_ : recs.filter Record.isA = []
    · left
      rw [ttl none_]
      decide
    · right
      rw [count]
      exact List.length_pos_iff.mpr none_

theorem Accepts.complete (accepts : Accepts lib room a d p) (sound : lib.Sound) (size : a.addrs.length = room)
    (tells : telling lib room (hostOrder d) = true) :
    p.addrs.take p.numAddrs ≠ [] ∧ ∀ x ∈ p.addrs.take p.numAddrs,
      ∃ r ∈ reportable (hostOrder d) room, r.rdata.length = 4 ∧ x = addrOf r.rdata := by
  have header : headerSize ≤ (hostOrder d).length := by rw [hostOrder_length]; exact accepts.header
  obtain ⟨p', run, stored⟩ := parseAnswer_stored lib header size
  obtain rfl : p' = p := Option.some.inj (run.symm.trans accepts.parsed)
  obtain ⟨length, few, -⟩ := accepts.fits sound size
  cases walked : met lib (hostOrder d) room with
  | none => exact absurd (stored.refused walked).1 (by simp [accepts.ok])
  | some recs =>
    obtain ⟨⟨first, member, address⟩, whole⟩ := telling_spec tells header accepts.answers walked
    obtain ⟨-, count, each, -⟩ := stored.accepted recs walked
    rw [Nat.zero_add] at count
    have there : first ∈ recs.filter Record.isA := List.mem_filter.mpr ⟨member, address⟩
    have pos := List.length_pos_of_mem there
    constructor
    · intro none_
      have lengths := congrArg List.length none_
      simp only [List.length_take, List.length_nil] at lengths
      omega
    · intro x inside
      obtain ⟨j, here⟩ := List.mem_iff_getElem?.mp inside
      have below : j < (p'.addrs.take p'.numAddrs).length := (List.getElem?_eq_some_iff.mp here).1
      have inA : j < (recs.filter Record.isA).length := by
        rw [List.length_take] at below
        omega
      have record : (recs.filter Record.isA)[j]? = some (recs.filter Record.isA)[j] := List.getElem?_eq_getElem inA
      obtain ⟨met_, isA⟩ := List.mem_filter.mp (List.getElem_mem inA)
      obtain ⟨four, questions⟩ := whole _ met_ isA
      refine ⟨(recs.filter Record.isA)[j], ?_, four, ?_⟩
      · rw [← met_reportable sound walked questions]
        exact List.getElem_mem inA
      · have stored_ := each j _ record four
        rw [Nat.zero_add] at stored_
        rw [List.getElem?_take_of_lt (by omega), stored_] at here
        exact (Option.some.inj here).symm

end

/- The runs, and those of dnscache.c under them. -/

variable {ι τ : Type} [DecidableEq ι] [DecidableEq τ]

def NetEvent.dns (lib : NameLib) (ev : NetEvent ι τ) : DnsEvent ι τ :=
  ⟨ev.pre, (ev.label.dns lib ev.pre).getD (.cacheInit 0 0 0 false), ev.out, ev.post⟩

variable {lib : NameLib} {hist : List (NetEvent ι τ)} {s : Resolver ι τ} {ev : NetEvent ι τ}

theorem NetEvent.fired_dns (fired : ev.Fired (netMachine lib)) : ev.label.dns lib ev.pre = some (NetEvent.dns lib ev).label ∧
    dnsStep ev.pre (NetEvent.dns lib ev).label = some (ev.post, ev.out) := by
  obtain ⟨op, same, step⟩ := Option.bind_eq_some_iff.mp fired.step
  have label : (NetEvent.dns lib ev).label = op := by rw [NetEvent.dns, same, Option.getD_some]
  rw [label]
  exact ⟨same, step⟩

theorem NetEvent.replied {t : τ} {reply : Option Reply} {allocs : Allocs ι} {now : Int} (fired : ev.Fired (netMachine lib))
    (label : (NetEvent.dns lib ev).label = .answered t reply allocs now) :
    ∃ call f, ev.label = .replied t call allocs now ∧ ev.pre.waiting t = some f ∧ call.fits f = true ∧
      call.result lib f = some reply := by
  obtain ⟨same, -⟩ := NetEvent.fired_dns fired
  have enabled := fired.enabled
  rw [label] at same
  obtain ⟨pre, op, out, post⟩ := ev
  cases op with
  | cacheInit maxSize maxBytes hashSize ok => cases same
  | getaddrlist u hostname numAddrs timeout rotate time => cases same
  | replied u call allocs' time =>
    simp only [NetOp.dns, Option.bind_eq_bind, Option.bind_eq_some_iff] at same
    obtain ⟨f, waits, reply', result, equal⟩ := same
    obtain ⟨rfl, rfl, rfl, rfl⟩ : u = t ∧ reply' = reply ∧ allocs' = allocs ∧ time = now := by simpa using equal
    simp only [netMachine, netEnabled, waits, Option.any_some, Bool.and_eq_true] at enabled
    exact ⟨call, f, rfl, waits, enabled.1, result⟩

theorem Call.fits_takes {c : Call} {f : Frame} {m : List UInt8} {p : Parsed} (fits : c.fits f = true)
    (takes : c.Takes lib f m p) : ∃ as ∈ c.traffic, ∃ a ∈ as, ∃ d, m = hostOrder d ∧ Accepts lib f.limit a d p ∧
      a.addrs.length = f.limit := by
  obtain ⟨as, query, a, attempt, d, same, accepts⟩ := takes
  have sizes := List.all_eq_true.mp (List.all_eq_true.mp fits as query) a attempt
  exact ⟨as, query, a, attempt, d, same, accepts, of_decide_eq_true sizes⟩

theorem NetEvent.enabled_dns (sound : lib.Sound) (fired : ev.Fired (netMachine lib)) :
    dnsEnabled ev.pre (NetEvent.dns lib ev).label = true := by
  have enabled := fired.enabled
  obtain ⟨same, -⟩ := NetEvent.fired_dns fired
  cases label : (NetEvent.dns lib ev).label with
  | cacheInit maxSize maxBytes hashSize ok | getaddrlist t hostname numAddrs timeout rotate now =>
    rw [label] at same
    obtain ⟨pre, op, out, post⟩ := ev
    cases op with
    | replied u call allocs time => simp [NetOp.dns, Option.bind_eq_some_iff] at same
    | _ => cases same <;> exact enabled
  | answered t reply allocs now =>
    obtain ⟨call, f, op, waits, fits, result⟩ := NetEvent.replied fired label
    simp only [netMachine, op, netEnabled, waits, Option.any_some, Bool.and_eq_true] at enabled
    simp only [dnsEnabled, waits, Option.any_some, Bool.and_eq_true]
    refine ⟨?_, enabled.2⟩
    cases reply with
    | none => rfl
    | some r =>
      obtain ⟨m, p, takes, rfl⟩ := Call.result_found result
      obtain ⟨as, -, a, -, d, -, accepts, size⟩ := Call.fits_takes fits takes
      obtain ⟨length, few, alive⟩ := accepts.fits sound size
      simp only [Option.all_some, Reply.fits, Bool.and_eq_true, decide_eq_true_eq, Bool.or_eq_true, List.length_take]
      refine ⟨by omega, alive.imp_right fun pos none_ => ?_⟩
      have lengths := congrArg List.length none_
      simp only [List.length_take, List.length_nil] at lengths
      omega

theorem NetRun.dns (sound : lib.Sound) (run : NetRun lib hist s) : DnsRun (hist.map (NetEvent.dns lib)) s := by
  induction run with
  | begin started => exact .begin started
  | @next hist e before fired ih =>
    refine Run.next (e := NetEvent.dns lib e) ih ⟨?_, ?_⟩
    · exact NetEvent.enabled_dns sound fired
    · exact (NetEvent.fired_dns fired).2

theorem dnsStep_waiting {s s' : Resolver ι τ} {op : DnsOp ι τ} {out : DnsRet ι} (run : dnsStep s op = some (s', out))
    {u : τ} {f : Frame} (waits : s'.waiting u = some f) :
    s.waiting u = some f ∨ ∃ hostname numAddrs timeout rotate now,
      op = .getaddrlist u hostname numAddrs timeout rotate now ∧
        ((s.cache = none ∧ f = ⟨hostname, none, numAddrs⟩) ∨
          (s.cache ≠ none ∧ f = ⟨hostname, some (hostOf hostname), numAddrs⟩)) := by
  cases op with
  | cacheInit maxSize maxBytes hashSize ok =>
    cases run
    exact .inl waits
  | getaddrlist t hostname numAddrs timeout rotate now =>
    simp only [dnsStep, stxDnsCacheGetaddrlist] at run
    split at run
    · rename_i off
      cases run
      by_cases this : u = t
      · subst this
        have same : some (⟨hostname, none, numAddrs⟩ : Frame) = some f := by simpa [Resolver.await] using waits
        exact .inr ⟨hostname, numAddrs, timeout, rotate, now, rfl, .inl ⟨off, (Option.some.inj same).symm⟩⟩
      · exact .inl (by simpa [Resolver.await, this] using waits)
    · rename_i w on
      simp only [Option.bind_eq_bind, Option.bind_eq_some_iff] at run
      obtain ⟨⟨w', heap, hit⟩, -, run⟩ := run
      cases hit with
      | some found =>
        cases run
        exact .inl waits
      | none =>
        cases run
        by_cases this : u = t
        · subst this
          have same : some (⟨hostname, some (hostOf hostname), numAddrs⟩ : Frame) = some f := by
            simpa [Resolver.await] using waits
          exact .inr ⟨hostname, numAddrs, timeout, rotate, now, rfl, .inr ⟨by simp [on], (Option.some.inj same).symm⟩⟩
        · exact .inl (by simpa [Resolver.await, this] using waits)
  | answered t reply allocs now =>
    left
    have kept : s'.waiting = (s.await t none).waiting := by
      simp only [dnsStep, stxDnsCacheResume, Option.bind_eq_bind, Option.bind_eq_some_iff] at run
      obtain ⟨g, -, run⟩ := run
      split at run
      · cases run; rfl
      · cases run; rfl
      · simp only [Option.bind_eq_some_iff] at run
        obtain ⟨copied, -, w, -, ⟨w', heap⟩, -, run⟩ := run
        cases run; rfl
    rw [kept] at waits
    by_cases this : u = t
    · subst this
      simp [Resolver.await] at waits
    · simpa [Resolver.await, this] using waits

/-- What a step has to meet: a call asks for at least one address, with a name that fits in
the buffer when the cache is on, and the replies that come tell. -/
def decent (lib : NameLib) (ev : NetEvent ι τ) : Bool :=
  match ev.label with
  | .cacheInit .. => true
  | .getaddrlist _ hostname numAddrs .. => 1 ≤ numAddrs && (ev.pre.cache.isNone || hostname.bytes.length < hostSize)
  | .replied t call .. => (ev.pre.waiting t).all fun f => call.traffic.all fun as => as.all fun a =>
      a.datagrams.all fun d => telling lib f.limit (hostOrder (d.take maxPacket))

omit [DecidableEq ι] [DecidableEq τ] in
theorem decent_call {t : τ} {hostname : CString} {numAddrs timeout : Nat} {rotate : Bool} {now : Int}
    (fine : decent lib ev = true) (op : ev.label = .getaddrlist t hostname numAddrs timeout rotate now) :
    1 ≤ numAddrs ∧ (ev.pre.cache ≠ none → hostname.bytes.length < hostSize) := by
  simp only [decent, op, Bool.and_eq_true, decide_eq_true_eq, Bool.or_eq_true, Option.isNone_iff_eq_none] at fine
  exact ⟨fine.1, fun on => fine.2.resolve_left on⟩

omit [DecidableEq ι] [DecidableEq τ] in
theorem decent_reply {t : τ} {call : Call} {allocs : Allocs ι} {now : Int} {f : Frame} {as : List Attempt} {a : Attempt}
    {d : List UInt8} (fine : decent lib ev = true) (op : ev.label = .replied t call allocs now)
    (waits : ev.pre.waiting t = some f) (query : as ∈ call.traffic) (attempt : a ∈ as) (arrived : d ∈ a.datagrams) :
    telling lib f.limit (hostOrder (d.take maxPacket)) = true := by
  simp only [decent, op, waits, Option.all_some, List.all_eq_true] at fine
  exact fine as query a attempt d arrived

structure Frame.Fine (f : Frame) : Prop where
  some_ : 1 ≤ f.numAddrs
  host : f.host = none ∨ f.host = some f.hostname.lower

theorem NetRun.frames (run : NetRun lib hist s) (fine : ∀ ev ∈ hist, decent lib ev = true) {t : τ} {f : Frame}
    (waits : s.waiting t = some f) : f.Fine := by
  induction run generalizing t f with
  | begin started =>
    rw [started.2] at waits
    cases waits
  | @next hist e before fired ih =>
    obtain ⟨same, step⟩ := NetEvent.fired_dns fired
    rcases dnsStep_waiting step waits with old | ⟨hostname, numAddrs, timeout, rotate, now, op, new⟩
    · exact ih (fun n member => fine n (List.mem_cons_of_mem _ member)) old
    · have here := fine e (List.mem_cons_self ..)
      rw [op] at same
      obtain ⟨pre, label, out, post⟩ := e
      cases label with
      | cacheInit maxSize maxBytes hashSize ok => cases same
      | replied u call allocs time => simp [NetOp.dns, Option.bind_eq_some_iff] at same
      | getaddrlist u hostname' numAddrs' timeout' rotate' time =>
        cases same
        obtain ⟨asks, short⟩ := decent_call here rfl
        rcases new with ⟨-, rfl⟩ | ⟨on, rfl⟩
        · exact ⟨asks, .inl rfl⟩
        · exact ⟨asks, .inr (congrArg some (hostOf_eq_lower.mpr (short on)))⟩

theorem DnsData.read_length {data data' : DnsData} {all out : List InAddr} {numAddrs : Nat} {rotate : Bool}
    (here : data.addrs = some all) (count : data.numAddrs = all.length) (cur : data.cur < all.length)
    (asks : 1 ≤ numAddrs) (run : data.read numAddrs rotate = some (out, data')) : out ≠ [] ∧ out.length ≤ numAddrs := by
  simp only [DnsData.read, here, Option.bind_eq_bind, Option.bind_some] at run
  split at run
  · split at run <;>
    · obtain ⟨a, -, run⟩ := Option.bind_eq_some_iff.mp run
      cases run
      exact ⟨by simp, by simpa using asks⟩
  · obtain ⟨copied, taken, run⟩ := Option.bind_eq_some_iff.mp run
    cases run
    rw [copyAddrs, if_pos (by omega)] at taken
    cases taken
    have length : (all.take (min numAddrs data.numAddrs)).length = min numAddrs data.numAddrs := by
      rw [List.length_take]
      omega
    refine ⟨fun none_ => ?_, by omega⟩
    rw [none_, List.length_nil] at length
    omega

theorem DnsInv.hit_entry {past : List (DnsEvent ι τ)} {s s' : Resolver ι τ} {t : τ} {hostname : CString}
    {numAddrs timeout : Nat} {rotate : Bool} {now : Int} {e : ι} {addrs : List InAddr} (inv : DnsInv past s)
    (step : dnsStep s (.getaddrlist t hostname numAddrs timeout rotate now) = some (s', .cached e addrs)) :
    ∃ w all, s.cache = some w ∧ w.inserted e = true ∧ now ≤ (s.data e).expires ∧ (s.data e).addrs = some all ∧
      addrs ⊆ all ∧ (1 ≤ numAddrs → addrs ≠ [] ∧ addrs.length ≤ numAddrs) := by
  simp only [dnsStep, stxDnsCacheGetaddrlist] at step
  split at step
  · cases step
  · rename_i w on
    simp only [Option.bind_eq_bind, Option.bind_eq_some_iff] at step
    obtain ⟨⟨w', heap, hit⟩, found, step⟩ := step
    cases hit with
    | none => cases step
    | some pair =>
      cases step
      obtain ⟨⟨calls, run⟩, -, filled⟩ := inv.cache w on
      obtain ⟨w₁, entry, looked, hits⟩ := CacheRun.lookup run t (some (hostOf hostname))
      simp only [lookupEntry, looked.step, Option.bind_eq_bind, Option.bind_some] at found
      cases entry with
      | none => cases found
      | some x =>
        obtain ⟨-, put, -, born, -⟩ := hits x rfl
        obtain ⟨-, host, all, holds, -⟩ := filled x put
        simp only [(holds.follows looked.follows born).data, Option.bind_some] at found
        split at found
        · rename_i alive
          obtain ⟨⟨out, data⟩, read, found⟩ := Option.bind_eq_some_iff.mp found
          obtain ⟨_, -, found⟩ := Option.bind_eq_some_iff.mp found
          cases found
          obtain ⟨out', data', read', part, -⟩ := DnsData.read_spec holds.list holds.count holds.cur numAddrs rotate
          obtain ⟨rfl, -⟩ : out = out' ∧ _ := by simpa using read.symm.trans read'
          exact ⟨w, all, on, put, alive, holds.list, part,
            fun asks => DnsData.read_length holds.list holds.count holds.cur asks read⟩
        · simp only [Option.bind_eq_some_iff] at found
          obtain ⟨_, -, _, -, found⟩ := found
          cases found

/-- The address is the complete data of an A record of the reply that was taken in a call
for the name. -/
def AddressOf (lib : NameLib) (ev : NetEvent ι τ) (name : CString) (x : InAddr) : Prop :=
  ∃ t call allocs now f m p, ev.label = .replied t call allocs now ∧ ev.pre.waiting t = some f ∧ f.asked = name ∧
    call.Takes lib f m p ∧ ∃ r ∈ reportable m f.limit, r.rdata.length = 4 ∧ x = addrOf r.rdata

def Hits (ev : NetEvent ι τ) (hostname : CString) (numAddrs : Nat) (now : Int) (e : ι) (addrs : List InAddr) : Prop :=
  ∃ t timeout rotate, ev.label = .getaddrlist t hostname numAddrs timeout rotate now ∧ ev.out = .cached e addrs

def Finds (ev : NetEvent ι τ) (f : Frame) (addrs : List InAddr) : Prop :=
  ∃ t call allocs now, ev.label = .replied t call allocs now ∧ ev.pre.waiting t = some f ∧ ev.out = .found addrs

/-- Every result of 0 has an address and no more than asked for, each is complete and from a
reply for the host, at once or by way of an entry that has not expired, and the rotation
stays in the list. -/
structure Yields (lib : NameLib) (hist : List (NetEvent ι τ)) (s : Resolver ι τ) : Prop where
  found : ∀ ev ∈ hist, ∀ f addrs, Finds ev f addrs → (addrs ≠ [] ∧ addrs.length ≤ f.numAddrs) ∧
    ∀ x ∈ addrs, ∃ name, (name = f.hostname ∨ name = f.hostname.lower) ∧ AddressOf lib ev name x
  cached : ∀ ev older, (ev :: older) <:+ hist → ∀ hostname numAddrs now e addrs, Hits ev hostname numAddrs now e addrs →
    (addrs ≠ [] ∧ addrs.length ≤ numAddrs) ∧
    (∃ w all, ev.pre.cache = some w ∧ w.inserted e = true ∧ now ≤ (ev.pre.data e).expires ∧
      (ev.pre.data e).addrs = some all ∧ addrs ⊆ all) ∧
    ∀ x ∈ addrs, ∃ n ∈ older, AddressOf lib n hostname.lower x
  rotation : ∀ w, s.cache = some w → ∀ e, w.inserted e = true → (s.data e).cur < (s.data e).numAddrs ∧
    ∃ addrs, (s.data e).addrs = some addrs ∧ addrs.length = (s.data e).numAddrs

theorem NetEvent.tells (sound : lib.Sound) (fired : ev.Fired (netMachine lib)) (fine : decent lib ev = true) {t : τ} {r : Reply}
    {allocs : Allocs ι} {now : Int} {f : Frame} (label : (NetEvent.dns lib ev).label = .answered t (some r) allocs now)
    (waits : ev.pre.waiting t = some f) : r.addrs ≠ [] ∧ r.addrs.length ≤ f.limit ∧
      ∀ x ∈ r.addrs, AddressOf lib ev f.asked x := by
  obtain ⟨call, g, op, waits', fits, result⟩ := NetEvent.replied fired label
  obtain rfl : f = g := Option.some.inj (waits.symm.trans waits')
  obtain ⟨m, p, takes, rfl⟩ := Call.result_found result
  obtain ⟨as, query, a, attempt, d, rfl, accepts, size⟩ := Call.fits_takes fits takes
  obtain ⟨dgram, arrived, cut⟩ := waitReply_mem accepts.matched
  have tells : telling lib f.limit (hostOrder d) = true := by
    rw [cut]
    exact decent_reply fine op waits query attempt arrived
  obtain ⟨some_, each⟩ := accepts.complete sound size tells
  obtain ⟨-, few, -⟩ := accepts.fits sound size
  refine ⟨some_, by rw [List.length_take]; omega, fun x inside => ?_⟩
  obtain ⟨record, there, four, value⟩ := each x inside
  exact ⟨t, call, allocs, now, f, _, p, op, waits, rfl, takes, record, there, four, value⟩

theorem dnsStep_found {s s' : Resolver ι τ} {t : τ} {reply : Option Reply} {allocs : Allocs ι} {now : Int} {f : Frame}
    {addrs : List InAddr} (waits : s.waiting t = some f)
    (run : dnsStep s (.answered t reply allocs now) = some (s', .found addrs)) :
    ∃ r, reply = some r ∧ ((f.host = none ∧ addrs = r.addrs) ∨
      (f.host ≠ none ∧ addrs = r.addrs.take (min f.numAddrs r.addrs.length))) := by
  simp only [dnsStep, stxDnsCacheResume, waits, Option.bind_eq_bind, Option.bind_some] at run
  cases reply with
  | none => cases run
  | some r =>
    refine ⟨r, rfl, ?_⟩
    cases host : f.host with
    | none =>
      simp only [host] at run
      cases run
      exact .inl ⟨rfl, rfl⟩
    | some h =>
      simp only [host, Option.bind_eq_some_iff] at run
      obtain ⟨copied, taken, w, -, ⟨w', heap⟩, -, run⟩ := run
      cases run
      rw [copyAddrs, if_pos (by omega)] at taken
      exact .inr ⟨by simp, (Option.some.inj taken).symm⟩

theorem NetEvent.finds (sound : lib.Sound) (run : NetRun lib hist ev.pre) (fired : ev.Fired (netMachine lib))
    (fine : ∀ n ∈ ev :: hist, decent lib n = true) {f : Frame} {addrs : List InAddr} (finds : Finds ev f addrs) :
    (addrs ≠ [] ∧ addrs.length ≤ f.numAddrs) ∧
      ∀ x ∈ addrs, ∃ name, (name = f.hostname ∨ name = f.hostname.lower) ∧ AddressOf lib ev name x := by
  obtain ⟨t, call, allocs, now, op, waits, out⟩ := finds
  have frame := NetRun.frames run (fun n member => fine n (List.mem_cons_of_mem _ member)) waits
  obtain ⟨same, step⟩ := NetEvent.fired_dns fired
  rw [op] at same
  simp only [NetOp.dns, waits, Option.bind_eq_bind, Option.bind_some, Option.bind_eq_some_iff] at same
  obtain ⟨reply, -, label⟩ := same
  rw [← Option.some.inj label, out] at step
  obtain ⟨reply, rfl, cases_⟩ := dnsStep_found waits step
  obtain ⟨some_, few, each⟩ := NetEvent.tells sound fired (fine ev (List.mem_cons_self ..)) (Option.some.inj label).symm waits
  have asked := frame.some_
  rcases cases_ with ⟨host, rfl⟩ | ⟨host, rfl⟩
  · rw [Frame.limit, host] at few
    refine ⟨⟨some_, few⟩, fun x inside => ⟨f.hostname, .inl rfl, ?_⟩⟩
    have named : f.asked = f.hostname := by rw [Frame.asked, host, Option.getD_none]
    rw [← named]
    exact each x inside
  · have lower : f.host = some f.hostname.lower := frame.host.resolve_left host
    have pos := List.length_pos_iff.mpr some_
    have length : (reply.addrs.take (min f.numAddrs reply.addrs.length)).length = min f.numAddrs reply.addrs.length := by
      rw [List.length_take]
      omega
    refine ⟨⟨fun none_ => ?_, by omega⟩, fun x inside => ⟨f.hostname.lower, .inr rfl, ?_⟩⟩
    · rw [none_, List.length_nil] at length
      omega
    · have named : f.asked = f.hostname.lower := by rw [Frame.asked, lower, Option.getD_some]
      rw [← named]
      exact each x (List.mem_of_mem_take inside)

theorem NetEvent.hits (sound : lib.Sound) (run : NetRun lib hist ev.pre) (fired : ev.Fired (netMachine lib))
    (fine : ∀ n ∈ ev :: hist, decent lib n = true) {hostname : CString} {numAddrs : Nat} {now : Int} {e : ι}
    {addrs : List InAddr} (hits : Hits ev hostname numAddrs now e addrs) :
    (addrs ≠ [] ∧ addrs.length ≤ numAddrs) ∧
      (∃ w all, ev.pre.cache = some w ∧ w.inserted e = true ∧ now ≤ (ev.pre.data e).expires ∧
        (ev.pre.data e).addrs = some all ∧ addrs ⊆ all) ∧
      ∀ x ∈ addrs, ∃ n ∈ hist, AddressOf lib n hostname.lower x := by
  obtain ⟨t, timeout, rotate, op, out⟩ := hits
  have here := decent_call (fine ev (List.mem_cons_self ..)) op
  obtain ⟨same, step⟩ := NetEvent.fired_dns fired
  rw [op] at same
  have label : (NetEvent.dns lib ev).label = .getaddrlist t hostname numAddrs timeout rotate now := (Option.some.inj same).symm
  rw [label, out] at step
  have inv := DnsRun.inv (NetRun.dns sound run)
  obtain ⟨w, all, on, put, alive, list, part, asked⟩ := inv.hit_entry step
  refine ⟨asked here.1, ⟨w, all, on, put, alive, list, part⟩, fun x inside => ?_⟩
  have on' : ev.pre.cache ≠ none := by simp [on]
  -- the entry was put in by an earlier call for the same copy of the name
  have under : (NetEvent.dns lib ev).Fired dnsMachine := ⟨NetEvent.enabled_dns sound fired, (NetEvent.fired_dns fired).2⟩
  have turned := DnsInv.turned inv under
  have call : CachedCall (NetEvent.dns lib ev) hostname := ⟨on', t, numAddrs, timeout, rotate, now, label⟩
  obtain ⟨-, found, ⟨n', member, f, reply, allocs, ⟨u, time, answered, waits⟩, named, rfl⟩, sub⟩ :=
    turned.returns hostname addrs (.inl ⟨call, e, out⟩)
  rw [hostOf_eq_lower.mpr (here.2 on')] at named
  rcases List.mem_cons.mp member with rfl | older
  · rw [label] at answered
    cases answered
  · obtain ⟨n, there, rfl⟩ := List.mem_map.mp older
    obtain ⟨newer, before, rfl⟩ := List.append_of_mem there
    obtain ⟨-, fired', -⟩ := run.split
    obtain ⟨-, -, each⟩ := NetEvent.tells sound fired' (fine n (List.mem_cons_of_mem _ there)) answered waits
    rw [named] at each
    exact ⟨n, there, each x (sub inside)⟩

/-- The query for a, as it is sent. -/
def queryForA : List UInt8 := [0x12, 0x34, 1, 0, 0, 1, 0, 0, 0, 0, 0, 0, 1, 97, 0, 0, 1, 0, 1]

/-- A reply to it that says only that a is an alias of b. -/
def aliasReply : List UInt8 :=
  [0x12, 0x34, 0x81, 0x80, 0, 1, 0, 1, 0, 0, 0, 0, 1, 97, 0, 0, 1, 0, 1] ++ [0xc0, 12, 0, 5, 0, 1, 0, 0, 0, 60, 0, 3, 1, 98, 0]

/-- A reply with the alias and two addresses. -/
def addressReply : List UInt8 :=
  [0x12, 0x34, 0x81, 0x80, 0, 1, 0, 3, 0, 0, 0, 0, 1, 97, 0, 0, 1, 0, 1] ++
    [0xc0, 12, 0, 5, 0, 1, 0, 0, 0, 60, 0, 3, 1, 98, 0] ++ [1, 98, 0, 0, 1, 0, 1, 0, 0, 0, 60, 0, 4, 10, 0, 0, 1] ++
    [1, 98, 0, 0, 1, 0, 1, 0, 0, 0, 60, 0, 4, 10, 0, 0, 2]

def upperA : CString := ⟨[65], by decide +kernel⟩
def lowerA : CString := ⟨[97], by decide +kernel⟩

def callWith (reply : List UInt8) (limit : Nat) : Call where
  res := ⟨true, false, false, false, 1, []⟩
  opened := true
  name := List.replicate maxDname 7
  interrupted := false
  traffic := [[⟨queryForA, .done, [reply], .done, List.replicate limit 0⟩]]

/-- stx_dns_getaddr returns 0 for the alias alone, and assigns no address. -/
theorem resolution_without_address :
    ¬ ∀ lib : NameLib, lib.Sound → ∀ (hist : List (NetEvent Nat Nat)) s, NetRun lib hist s → Yields lib hist s := by
  intro claim
  obtain ⟨hist, s, run, seen⟩ := Run.found (M := netMachine (ι := Nat) (τ := Nat) plainLib)
    [.getaddrlist 1 lowerA 1 9 true 100, .replied 1 (callWith aliasReply 1) ⟨true, true, true, some 0⟩ 100]
    noCache_started
    (p := fun hist _ => hist.any fun ev => decide (
      ev.label = .replied 1 (callWith aliasReply 1) ⟨true, true, true, some 0⟩ 100 ∧
        ev.pre.waiting 1 = some ⟨lowerA, none, 1⟩ ∧ ev.out = .found []))
    (by decide +kernel)
  obtain ⟨ev, member, seen⟩ := List.any_eq_true.mp seen
  have finds : Finds ev ⟨lowerA, none, 1⟩ [] := ⟨_, _, _, _, of_decide_eq_true seen⟩
  exact ((claim plainLib plainLib_sound hist s run).found ev member _ _ finds).1.1 rfl

/-- In every run in which callers ask for an address, names fit in the buffer of the cache
and the replies tell, every result of 0 yields complete addresses of the host. -/
theorem resolution_yields (lib : NameLib) (sound : lib.Sound) (hist : List (NetEvent ι τ)) (s : Resolver ι τ)
    (run : NetRun lib hist s) (fine : ∀ ev ∈ hist, decent lib ev = true) : Yields lib hist s := by
  constructor
  · intro ev member f addrs finds
    obtain ⟨newer, older, rfl⟩ := List.append_of_mem member
    obtain ⟨before, fired, -⟩ := run.split
    exact NetEvent.finds sound before fired (fun n here => fine n (List.mem_append_right _ here)) finds
  · rintro ev older ⟨newer, rfl⟩ hostname numAddrs now e addrs hits
    obtain ⟨before, fired, -⟩ := run.split
    exact NetEvent.hits sound before fired (fun n here => fine n (List.mem_append_right _ here)) hits
  · intro w on e put
    obtain ⟨-, -, filled⟩ := (DnsRun.inv (NetRun.dns sound run)).cache w on
    obtain ⟨-, host, addrs, holds, -⟩ := filled e put
    exact ⟨by rw [holds.count]; exact holds.cur, addrs, holds.list, holds.count.symm⟩

/-- A host with two addresses: the first call asks the name server, the later ones get the
two addresses out of the cache in turn. -/
theorem resolution_yields_in_turn :
    ∃ (hist : List (NetEvent Nat Nat)) (s : Resolver Nat Nat), plainLib.Sound ∧ NetRun plainLib hist s ∧
      (∀ ev ∈ hist, decent plainLib ev = true) ∧
      hist.map (·.out) = [.cached 0 [0x200000a], .cached 0 [0x100000a], .found [0x100000a], .query lowerA 1024 9, .ready] ∧
      Yields plainLib hist s := by
  obtain ⟨hist, s, run, seen⟩ := Run.found (M := netMachine (ι := Nat) (τ := Nat) plainLib)
    [.cacheInit 100 10000 101 true, .getaddrlist 1 upperA 1 9 true 100,
      .replied 1 (callWith addressReply 1024) ⟨true, true, true, some 0⟩ 100, .getaddrlist 1 lowerA 1 9 true 130,
      .getaddrlist 1 lowerA 1 9 true 160]
    noCache_started
    (p := fun hist _ => (hist.all fun ev => decent plainLib ev) && decide (hist.map (·.out) =
      [.cached 0 [0x200000a], .cached 0 [0x100000a], .found [0x100000a], .query lowerA 1024 9, .ready]))
    (by decide +kernel)
  obtain ⟨fine, outs⟩ := Bool.and_eq_true _ _ ▸ seen
  have fine := List.all_eq_true.mp fine
  exact ⟨hist, s, plainLib_sound, run, fine, of_decide_eq_true outs,
    resolution_yields plainLib plainLib_sound hist s run fine⟩

end StateThreads.Dns
