import StateThreads.Contract.DnsEntries

/-! The names that the cached resolver asks for, over every history of its calls. -/
namespace StateThreads.Dns
open Lru LabelledRun

variable {ι τ : Type}

def CString.lower (s : CString) : CString := ⟨s.bytes.map tolower, map_tolower_nonzero s.nonzero⟩

theorem hostOf_eq_lower {hostname : CString} : hostOf hostname = hostname.lower ↔ hostname.bytes.length < hostSize := by
  simp only [hostOf, CString.lower, CString.mk.injEq, copyLoop_eq]
  constructor
  · intro same
    have lengths := congrArg List.length same
    simp only [List.length_map, List.length_take, hostSize] at lengths ⊢
    omega
  · intro short
    rw [List.take_of_length_le]
    simp only [hostSize] at short ⊢
    omega

variable [DecidableEq ι] [DecidableEq τ] {w w' : DnsWorld ι τ}

def PlainCall (ev : DnsEvent ι τ) (hostname : CString) : Prop := ev.pre.cache = none ∧
  ∃ t numAddrs timeout rotate now, ev.label = .getaddrlist t hostname numAddrs timeout rotate now

def CachedCall (ev : DnsEvent ι τ) (hostname : CString) : Prop := ev.pre.cache ≠ none ∧
  ∃ t numAddrs timeout rotate now, ev.label = .getaddrlist t hostname numAddrs timeout rotate now

def Answers (ev : DnsEvent ι τ) (f : Frame) (reply : Reply) (allocs : Allocs ι) : Prop :=
  ∃ t now, ev.label = .answered t (some reply) allocs now ∧ ev.pre.waiting t = some f

def Resolved (hist : List (DnsEvent ι τ)) (name : CString) (addrs : List InAddr) : Prop :=
  ∃ ev ∈ hist, ∃ f reply allocs, Answers ev f reply allocs ∧ f.asked = name ∧ reply.addrs = addrs

def AsksFor (ev : DnsEvent ι τ) (name : CString) : Prop :=
  (∃ limit timeout, ev.out = .query name limit timeout) ∨
    ∃ w e addrs, ev.pre.cache = some w ∧ ev.out = .cached e addrs ∧ (w.cache.entry e).key = some name

def Uses (ev : DnsEvent ι τ) (e : ι) (hostname : CString) : Prop :=
  (CachedCall ev hostname ∧ ∃ addrs, ev.out = .cached e addrs) ∨
    ∃ f reply allocs w, Answers ev f reply allocs ∧ f.host ≠ none ∧ f.hostname = hostname ∧ allocs.entry = some e ∧
      ev.post.cache = some w ∧ w.inserted e = true

def Returns (ev : DnsEvent ι τ) (hostname : CString) (addrs : List InAddr) : Prop :=
  (CachedCall ev hostname ∧ ∃ e, ev.out = .cached e addrs) ∨
    ∃ f reply allocs, Answers ev f reply allocs ∧ f.host ≠ none ∧ f.hostname = hostname ∧ ev.out = .found addrs

/-- The names that are asked for are the host names in lower case. -/
structure SameName (hist : List (DnsEvent ι τ)) : Prop where
  plain : ∀ ev ∈ hist, ∀ hostname, PlainCall ev hostname → ∃ limit timeout, ev.out = .query hostname limit timeout
  asks : ∀ ev ∈ hist, ∀ hostname, CachedCall ev hostname → AsksFor ev hostname.lower
  shares : ∀ ev ∈ hist, ∀ ev' ∈ hist, ∀ e hostname hostname', Uses ev e hostname → Uses ev' e hostname' →
    hostname.lower = hostname'.lower
  returns : ∀ ev older hostname addrs, (ev :: older) <:+ hist → Returns ev hostname addrs →
    ∃ all, Resolved (ev :: older) hostname.lower all ∧ addrs ⊆ all

structure DnsInv (hist : List (DnsEvent ι τ)) (s : Resolver ι τ) : Prop where
  cache : ∀ w, s.cache = some w → (∃ calls, CacheRun dnsKeys calls w) ∧
    w.cache.maxWeight.toNat + entryWeightMax < 2 ^ 64 ∧ Filled w s.data (Resolved hist)
  frames : ∀ t f host, s.waiting t = some f → f.host = some host → host = hostOf f.hostname ∧ s.cache ≠ none ∧
    ∃ ev ∈ hist, CachedCall ev f.hostname
  uses : ∀ ev ∈ hist, ∀ e hostname, Uses ev e hostname → ∃ w, s.cache = some w ∧ w.cache.life e ≠ .unborn ∧
    (w.cache.entry e).key = some (hostOf hostname) ∧ ∃ n ∈ hist, CachedCall n hostname

structure Turned (hist : List (DnsEvent ι τ)) (ev : DnsEvent ι τ) : Prop where
  inv : DnsInv (ev :: hist) ev.post
  plain : ∀ hostname, PlainCall ev hostname → ∃ limit timeout, ev.out = .query hostname limit timeout
  asks : ∀ hostname, CachedCall ev hostname → AsksFor ev (hostOf hostname)
  returns : ∀ hostname addrs, Returns ev hostname addrs → (∃ n ∈ ev :: hist, CachedCall n hostname) ∧
    ∃ all, Resolved (ev :: hist) (hostOf hostname) all ∧ addrs ⊆ all

section
variable {past : List (DnsEvent ι τ)} {s : Resolver ι τ} {ev : DnsEvent ι τ}

omit [DecidableEq ι] [DecidableEq τ] in
theorem Resolved.later {name : CString} {addrs : List InAddr} (resolved : Resolved past name addrs) :
    Resolved (ev :: past) name addrs := by
  obtain ⟨n, member, rest⟩ := resolved
  exact ⟨n, List.mem_cons_of_mem _ member, rest⟩

theorem DnsInv.usesLater (inv : DnsInv past s) (on : s.cache = some w) (follows : Follows w w') {n : DnsEvent ι τ} (member : n ∈ past) {e : ι} {hostname : CString} (uses : Uses n e hostname) :
    w'.cache.life e ≠ .unborn ∧ (w'.cache.entry e).key = some (hostOf hostname) ∧ ∃ m ∈ ev :: past, CachedCall m hostname := by
  obtain ⟨v, same, born, key, m, there, call⟩ := inv.uses n member e hostname uses
  rw [on] at same
  obtain rfl := Option.some.inj same
  obtain ⟨born', key', -⟩ := follows.constant e born
  exact ⟨born', key'.trans key, m, List.mem_cons_of_mem _ there, call⟩

theorem DnsInv.init (inv : DnsInv past s) {maxSize maxBytes hashSize : Word} {ok : Bool}
    (enabled : dnsEnabled s (.cacheInit maxSize maxBytes hashSize ok) = true) :
    ∃ s' out, dnsStep s (.cacheInit maxSize maxBytes hashSize ok) = some (s', out) ∧
      Turned past ⟨s, .cacheInit maxSize maxBytes hashSize ok, out, s'⟩ := by
  simp only [dnsEnabled, Bool.and_eq_true, Option.isNone_iff_eq_none, decide_eq_true_eq] at enabled
  obtain ⟨⟨off, positive⟩, small⟩ := enabled
  refine ⟨_, _, rfl, ⟨?_, ?_, ?_⟩, ?_, ?_, ?_⟩
  · intro w on
    cases ok with
    | false => simp [stxDnsCacheInit] at on
    | true =>
      obtain rfl : newCache maxSize maxBytes hashSize = w := by simpa [stxDnsCacheInit] using on
      exact ⟨⟨[], .begin ⟨maxSize, maxBytes, hashSize, true, _, positive, rfl⟩⟩, small, by simp [Filled, newCache]⟩
  · intro t f host waits cached
    exact absurd off (inv.frames t f host waits cached).2.1
  · intro n member e hostname uses
    obtain rfl | old := List.mem_cons.mp member
    · simp [Uses, CachedCall, Answers] at uses
    · obtain ⟨w, on, -⟩ := inv.uses n old e hostname uses
      rw [off] at on
      cases on
  all_goals simp [PlainCall, CachedCall, Returns, Answers]

theorem DnsInv.plain (inv : DnsInv past s) (off : s.cache = none) (t : τ) (hostname : CString) (numAddrs timeout : Nat)
    (rotate : Bool) (now : Int) :
    Turned past ⟨s, .getaddrlist t hostname numAddrs timeout rotate now, .query hostname numAddrs timeout,
      s.await t (some ⟨hostname, none, numAddrs⟩)⟩ := by
  refine ⟨⟨?_, ?_, ?_⟩, ?_, ?_, ?_⟩
  · intro w on
    rw [show (s.await t _).cache = s.cache from rfl, off] at on
    cases on
  · intro u f host waits cached
    by_cases this : u = t
    · subst this
      obtain rfl : (⟨hostname, none, numAddrs⟩ : Frame) = f := by simpa [Resolver.await] using waits
      cases cached
    · have old : s.waiting u = some f := by simpa [Resolver.await, this] using waits
      exact absurd off (inv.frames u f host old cached).2.1
  · intro n member e name uses
    obtain rfl | old := List.mem_cons.mp member
    · simp [Uses, CachedCall, Answers] at uses
    · obtain ⟨w, on, -⟩ := inv.uses n old e name uses
      rw [off] at on
      cases on
  · rintro name ⟨-, u, n, d, r, time, label⟩
    obtain ⟨-, rfl, -⟩ : t = u ∧ hostname = name ∧ _ := by simpa using label
    exact ⟨_, _, rfl⟩
  · rintro name ⟨on, -⟩
    exact absurd off on
  · simp [Returns, CachedCall, Answers]

omit [DecidableEq ι] [DecidableEq τ] in
theorem CachedCall.hostname {t : τ} {hostname name : CString} {numAddrs timeout : Nat} {rotate : Bool} {now : Int}
    (call : CachedCall ev name) (label : ev.label = .getaddrlist t hostname numAddrs timeout rotate now) : name = hostname := by
  obtain ⟨-, u, n, d, r, time, label'⟩ := call
  rw [label] at label'
  obtain ⟨-, rfl, -⟩ : t = u ∧ hostname = name ∧ _ := by simpa using label'
  rfl

theorem DnsInv.cacheLater (inv : DnsInv past s) (on : s.cache = some w) {heap : ι → DnsData}
    {P : CString → List InAddr → Prop} (grew : Grew w P w' heap) (later : ∀ name addrs, P name addrs → Resolved (ev :: past) name addrs) :
    ∀ v, some w' = some v → (∃ calls, CacheRun dnsKeys calls v) ∧ v.cache.maxWeight.toNat + entryWeightMax < 2 ^ 64 ∧
      Filled v heap (Resolved (ev :: past)) := by
  rintro v ⟨rfl⟩
  refine ⟨grew.run, ?_, grew.filled.imp later⟩
  rw [grew.follows.capacity]
  exact (inv.cache w on).2.1

theorem DnsInv.hit (inv : DnsInv past s) (on : s.cache = some w) {t : τ} {hostname : CString} {numAddrs timeout : Nat}
    {rotate : Bool} {now : Int} {heap : ι → DnsData} {e : ι} {addrs all : List InAddr} (grew : Grew w (Resolved past) w' heap)
    (born : w.cache.life e ≠ .unborn) (key : (w.cache.entry e).key = some (hostOf hostname))
    (resolved : Resolved past (hostOf hostname) all) (part : addrs ⊆ all) :
    Turned past ⟨s, .getaddrlist t hostname numAddrs timeout rotate now, .cached e addrs, { s with cache := some w', data := heap }⟩ := by
  refine ⟨⟨inv.cacheLater on grew fun _ _ => Resolved.later, ?_, ?_⟩, ?_, ?_, ?_⟩
  · intro u f host waits cached
    obtain ⟨same, -, n, member, call⟩ := inv.frames u f host waits cached
    exact ⟨same, by simp, n, List.mem_cons_of_mem _ member, call⟩
  · intro n member x name uses
    refine ⟨w', rfl, ?_⟩
    obtain rfl | old := List.mem_cons.mp member
    · obtain ⟨call, addrs', out⟩ | ⟨f, reply, allocs, v, ⟨u, time, label, -⟩, -⟩ := uses
      · obtain ⟨rfl, -⟩ : e = x ∧ addrs = addrs' := by simpa using out
        obtain rfl := call.hostname rfl
        obtain ⟨born', key', -⟩ := grew.follows.constant e born
        exact ⟨born', key'.trans key, _, List.mem_cons_self .., call⟩
      · cases label
    · exact inv.usesLater on grew.follows old uses
  · rintro name ⟨off, -⟩
    rw [on] at off
    cases off
  · intro name call
    obtain rfl := call.hostname rfl
    exact .inr ⟨w, e, addrs, on, rfl, key⟩
  · rintro name out (⟨call, x, same⟩ | ⟨f, reply, allocs, ⟨u, time, label, -⟩, -⟩)
    · obtain ⟨-, rfl⟩ : e = x ∧ addrs = out := by simpa using same
      obtain rfl := call.hostname rfl
      exact ⟨⟨_, List.mem_cons_self .., call⟩, all, resolved.later, part⟩
    · cases label

theorem DnsInv.miss (inv : DnsInv past s) (on : s.cache = some w) {t : τ} {hostname : CString} {numAddrs timeout : Nat}
    {rotate : Bool} {now : Int} {heap : ι → DnsData} (grew : Grew w (Resolved past) w' heap) :
    Turned past ⟨s, .getaddrlist t hostname numAddrs timeout rotate now, .query (hostOf hostname) maxHostAddrs timeout,
      ({ s with cache := some w', data := heap } : Resolver ι τ).await t (some ⟨hostname, some (hostOf hostname), numAddrs⟩)⟩ := by
  refine ⟨⟨inv.cacheLater on grew fun _ _ => Resolved.later, ?_, ?_⟩, ?_, ?_, ?_⟩
  · intro u f host waits cached
    by_cases same : u = t
    · subst same
      obtain rfl : (⟨hostname, some (hostOf hostname), numAddrs⟩ : Frame) = f := by simpa [Resolver.await] using waits
      exact ⟨(Option.some.inj cached).symm, by simp [Resolver.await], _, List.mem_cons_self .., by simp [on], _, _, _, _, _, rfl⟩
    · have old : s.waiting u = some f := by simpa [Resolver.await, same] using waits
      obtain ⟨equal, -, n, member, call⟩ := inv.frames u f host old cached
      exact ⟨equal, by simp [Resolver.await], n, List.mem_cons_of_mem _ member, call⟩
  · intro n member x name uses
    refine ⟨w', rfl, ?_⟩
    obtain rfl | old := List.mem_cons.mp member
    · simp [Uses, Answers] at uses
    · exact inv.usesLater on grew.follows old uses
  · rintro name ⟨off, -⟩
    rw [on] at off
    cases off
  · intro name call
    obtain rfl := call.hostname rfl
    exact .inl ⟨_, _, rfl⟩
  · simp [Returns, Answers]

theorem DnsInv.cached (inv : DnsInv past s) (on : s.cache = some w) (t : τ) (hostname : CString) (numAddrs timeout : Nat)
    (rotate : Bool) (now : Int) :
    ∃ s' out, dnsStep s (.getaddrlist t hostname numAddrs timeout rotate now) = some (s', out) ∧
      Turned past ⟨s, .getaddrlist t hostname numAddrs timeout rotate now, out, s'⟩ := by
  obtain ⟨⟨calls, run⟩, -, filled⟩ := inv.cache w on
  obtain ⟨w', heap, hit, step, grew, hits⟩ := lookupEntry_spec run filled t (hostOf hostname) numAddrs rotate now
  simp only [dnsStep, stxDnsCacheGetaddrlist, on, step, Option.bind_eq_bind, Option.bind_some]
  cases hit with
  | some found =>
    obtain ⟨born, key, all, resolved, part⟩ := hits found.1 found.2 rfl
    exact ⟨_, _, rfl, inv.hit on grew born key resolved part⟩
  | none => exact ⟨_, _, rfl, inv.miss on grew⟩

section
variable {t : τ} {reply : Option Reply} {allocs : Allocs ι} {now : Int} {f : Frame}

omit [DecidableEq ι] in
theorem Resolver.await_other {u : τ} {g : Frame} (there : (s.await t none).waiting u = some g) : s.waiting u = some g := by
  by_cases same : u = t
  · subst same
    simp [Resolver.await] at there
  · simpa [Resolver.await, same] using there

omit [DecidableEq ι] [DecidableEq τ] in
theorem Answers.frame {out : DnsRet ι} {s' : Resolver ι τ} {g : Frame} {r : Reply} {a : Allocs ι}
    (answers : Answers (⟨s, .answered t reply allocs now, out, s'⟩ : DnsEvent ι τ) g r a) (waits : s.waiting t = some f) :
    reply = some r ∧ g = f ∧ a = allocs := by
  obtain ⟨u, time, label, there⟩ := answers
  obtain ⟨rfl, rfl, rfl, -⟩ : t = u ∧ reply = some r ∧ allocs = a ∧ now = time := by simpa using label
  rw [waits] at there
  exact ⟨rfl, (Option.some.inj there).symm, rfl⟩

theorem DnsInv.idle (inv : DnsInv past s) (waits : s.waiting t = some f) (quiet : reply = none ∨ f.host = none) (out : DnsRet ι) :
    Turned past ⟨s, .answered t reply allocs now, out, s.await t none⟩ := by
  have silent : ∀ {g r a}, Answers (⟨s, .answered t reply allocs now, out, s.await t none⟩ : DnsEvent ι τ) g r a →
      g.host = none := by
    intro g r a answers
    obtain ⟨there, rfl, -⟩ := answers.frame waits
    obtain none | off := quiet
    · rw [none] at there
      cases there
    · exact off
  refine ⟨⟨?_, ?_, ?_⟩, ?_, ?_, ?_⟩
  · intro w on
    obtain ⟨run, room, filled⟩ := inv.cache w on
    exact ⟨run, room, filled.imp fun _ _ => Resolved.later⟩
  · intro u g host there cached
    obtain ⟨equal, on, n, member, call⟩ := inv.frames u g host (Resolver.await_other there) cached
    exact ⟨equal, on, n, List.mem_cons_of_mem _ member, call⟩
  · intro n member e name uses
    obtain rfl | old := List.mem_cons.mp member
    · obtain ⟨⟨-, u, m, d, r, time, label⟩, -⟩ | ⟨g, r, a, w, answers, cached, -⟩ := uses
      · cases label
      · exact absurd (silent answers) cached
    · obtain ⟨w, on, born, key, m, there, call⟩ := inv.uses n old e name uses
      exact ⟨w, on, born, key, m, List.mem_cons_of_mem _ there, call⟩
  · simp [PlainCall]
  · simp [CachedCall]
  · rintro name addrs (⟨⟨-, u, m, d, r, time, label⟩, -⟩ | ⟨g, r, a, answers, cached, -⟩)
    · cases label
    · exact absurd (silent answers) cached

theorem DnsInv.fill (inv : DnsInv past s) (waits : s.waiting t = some f) {r : Reply} (cached : f.host = some (hostOf f.hostname))
    (on : s.cache = some w) {heap : ι → DnsData}
    (grew : Grew w (fun name addrs => Resolved past name addrs ∨ name = hostOf f.hostname ∧ addrs = r.addrs) w' heap)
    (put : ∀ e, allocs.entry = some e → w'.inserted e = true → w'.cache.life e ≠ .unborn ∧
      (w'.cache.entry e).key = some (hostOf f.hostname)) (n : Nat) :
    Turned past ⟨s, .answered t (some r) allocs now, .found (r.addrs.take n),
      ⟨some w', heap, (s.await t none).waiting⟩⟩ := by
  obtain ⟨-, -, m, there, call⟩ := inv.frames t f _ waits cached
  -- the answer counts as soon as the step is done
  have resolved : ∀ out s', Resolved (⟨s, .answered t (some r) allocs now, out, s'⟩ :: past) (hostOf f.hostname) r.addrs := by
    intro out s'
    refine ⟨_, List.mem_cons_self .., f, r, allocs, ⟨t, now, rfl, waits⟩, ?_, rfl⟩
    rw [Frame.asked, cached]
    rfl
  refine ⟨⟨inv.cacheLater on grew fun name addrs source => ?_, ?_, ?_⟩, ?_, ?_, ?_⟩
  · obtain old | ⟨rfl, rfl⟩ := source
    · exact old.later
    · exact resolved _ _
  · intro u g host there waited
    obtain ⟨equal, -, n, member, call⟩ := inv.frames u g host (Resolver.await_other there) waited
    exact ⟨equal, by simp, n, List.mem_cons_of_mem _ member, call⟩
  · intro n member e name uses
    refine ⟨w', rfl, ?_⟩
    obtain rfl | old := List.mem_cons.mp member
    · obtain ⟨⟨-, u, m, d, r, time, label⟩, -⟩ | ⟨g, r, a, v, answers, -, rfl, this, same, inside⟩ := uses
      · cases label
      · obtain ⟨-, rfl, rfl⟩ := answers.frame waits
        obtain rfl := Option.some.inj same
        obtain ⟨born, key⟩ := put e this inside
        exact ⟨born, key, m, List.mem_cons_of_mem _ there, call⟩
    · exact inv.usesLater on grew.follows old uses
  · simp [PlainCall]
  · simp [CachedCall]
  · rintro name addrs (⟨⟨-, u, m, d, r, time, label⟩, -⟩ | ⟨g, r', a, answers, -, rfl, same⟩)
    · cases label
    · obtain ⟨-, rfl, -⟩ := answers.frame waits
      obtain rfl : r.addrs.take n = addrs := by simpa using same
      exact ⟨⟨m, List.mem_cons_of_mem _ there, call⟩, r.addrs, resolved _ _, List.take_subset ..⟩

theorem DnsInv.answered (inv : DnsInv past s) (now : Int)
    (enabled : dnsEnabled s (.answered t reply allocs now) = true) :
    ∃ s' out, dnsStep s (.answered t reply allocs now) = some (s', out) ∧
      Turned past ⟨s, .answered t reply allocs now, out, s'⟩ := by
  simp only [dnsEnabled, Option.any_eq_true, Bool.and_eq_true, Option.all_eq_true, decide_eq_true_eq] at enabled
  obtain ⟨f, waits, fits, new⟩ := enabled
  simp only [dnsStep, stxDnsCacheResume, waits, Option.bind_eq_bind, Option.bind_some]
  cases reply with
  | none => exact ⟨_, _, rfl, inv.idle waits (.inl rfl) _⟩
  | some r =>
    cases cached : f.host with
    | none => exact ⟨_, _, rfl, inv.idle waits (.inr cached) _⟩
    | some host =>
      obtain ⟨rfl, on, -⟩ := inv.frames t f host waits cached
      obtain ⟨w, on⟩ := Option.ne_none_iff_exists'.mp on
      obtain ⟨⟨calls, run⟩, room, filled⟩ := inv.cache w on
      have fit := fits r rfl
      simp only [Reply.fits, Frame.limit, cached, Option.isSome_some, if_true, Bool.and_eq_true, decide_eq_true_eq,
        Bool.or_eq_true, ne_eq] at fit
      have short : (hostOf f.hostname).bytes.length < hostSize := by
        simp only [hostOf, copyLoop_eq, List.length_map, List.length_take, hostSize]
        omega
      have copied : copyAddrs r.addrs (min f.numAddrs r.addrs.length) = some (r.addrs.take (min f.numAddrs r.addrs.length)) := by
        rw [copyAddrs, if_pos (by omega)]
      have filled' : Filled w s.data fun name addrs => Resolved past name addrs ∨ name = hostOf f.hostname ∧ addrs = r.addrs :=
        filled.imp fun _ _ => .inl
      obtain ⟨w', heap, step, grew, put⟩ := insertEntry_spec run filled' t now short fit.1
        (by intro positive; simpa [Int.not_le.mpr positive] using fit.2) (fun e this => new e this w on) room (.inr ⟨rfl, rfl⟩)
      refine ⟨⟨some w', heap, (s.await t none).waiting⟩, .found (r.addrs.take (min f.numAddrs r.addrs.length)), ?_,
        inv.fill waits cached on grew put _⟩
      simp only [copied, Resolver.await, on, step, Option.bind_some]

end

theorem DnsInv.step (inv : DnsInv past s) (op : DnsOp ι τ) (enabled : dnsEnabled s op = true) :
    ∃ s' out, dnsStep s op = some (s', out) ∧ Turned past ⟨s, op, out, s'⟩ := by
  cases op with
  | cacheInit maxSize maxBytes hashSize ok => exact inv.init enabled
  | getaddrlist t hostname numAddrs timeout rotate now =>
    cases on : s.cache with
    | none =>
      refine ⟨_, _, ?_, inv.plain on t hostname numAddrs timeout rotate now⟩
      simp only [dnsStep, stxDnsCacheGetaddrlist, on]
    | some w => exact inv.cached on t hostname numAddrs timeout rotate now
  | answered t reply allocs now => exact inv.answered now enabled

theorem DnsInv.turned (inv : DnsInv past ev.pre) (fired : ev.Fired dnsMachine) : Turned past ev := by
  obtain ⟨s', out, step, turned⟩ := inv.step ev.label fired.enabled
  have same := fired.step
  simp only [dnsMachine] at same
  rw [step] at same
  obtain ⟨rfl, rfl⟩ := Prod.mk.inj (Option.some.inj same)
  exact turned

theorem DnsRun.inv (run : DnsRun past s) : DnsInv past s := by
  refine run.induct (P := fun past s => DnsInv past s) ?_ ?_
  · rintro s ⟨off, idle⟩
    refine ⟨?_, ?_, by simp⟩
    · intro w on
      rw [off] at on
      cases on
    · intro t f host waits
      rw [idle] at waits
      cases waits
  · intro past ev before inv fired
    exact (inv.turned fired).inv

theorem DnsRun.turned (run : DnsRun past s) {older : List (DnsEvent ι τ)} (part : (ev :: older) <:+ past) : Turned older ev := by
  obtain ⟨newer, rfl⟩ := part
  obtain ⟨before, fired, -⟩ := run.split
  exact (DnsRun.inv before).turned fired

theorem DnsRun.each (run : DnsRun past s) (member : ev ∈ past) : ∃ older, Turned older ev := by
  obtain ⟨newer, older, rfl⟩ := List.append_of_mem member
  exact ⟨older, run.turned ⟨newer, rfl⟩⟩

theorem SameName.short (same : SameName past) (run : DnsRun past s) (member : ev ∈ past) {hostname : CString}
    (call : CachedCall ev hostname) : hostname.bytes.length < hostSize := by
  obtain ⟨older, turned⟩ := run.each member
  rw [← hostOf_eq_lower]
  obtain ⟨limit, timeout, out⟩ | ⟨w, e, addrs, on, out, key⟩ := turned.asks hostname call <;>
    obtain ⟨limit', timeout', out'⟩ | ⟨w', e', addrs', on', out', key'⟩ := same.asks ev member hostname call
  · rw [out] at out'
    obtain ⟨equal, -⟩ : hostOf hostname = hostname.lower ∧ _ := by simpa using out'
    exact equal
  · rw [out] at out'
    cases out'
  · rw [out] at out'
    cases out'
  · rw [out] at out'
    obtain ⟨rfl, -⟩ : e = e' ∧ _ := by simpa using out'
    rw [on] at on'
    obtain rfl := Option.some.inj on'
    rw [key] at key'
    exact Option.some.inj key'

/-- The calls so far, with the cache on, ask for the host name in lower case, do not share
entries with other names and return addresses that were found for their name exactly when
every host name fits in the buffer; whatever comes next returns. -/
theorem cached_names (past : List (DnsEvent ι τ)) (s : Resolver ι τ) (run : DnsRun past s) :
    (SameName past ↔ ∀ ev ∈ past, ∀ hostname, CachedCall ev hostname → hostname.bytes.length < hostSize) ∧
      ∀ op, dnsEnabled s op = true → (dnsStep s op).isSome = true := by
  have inv := run.inv
  refine ⟨⟨fun same ev member hostname call => same.short run member call, fun short => ⟨?_, ?_, ?_, ?_⟩⟩, ?_⟩
  · intro ev member
    obtain ⟨older, turned⟩ := run.each member
    exact turned.plain
  · intro ev member hostname call
    obtain ⟨older, turned⟩ := run.each member
    rw [← hostOf_eq_lower.mpr (short ev member hostname call)]
    exact turned.asks hostname call
  · intro ev member ev' member' e hostname hostname' uses uses'
    obtain ⟨w, on, -, key, n, there, call⟩ := inv.uses ev member e hostname uses
    obtain ⟨w', on', -, key', n', there', call'⟩ := inv.uses ev' member' e hostname' uses'
    rw [on] at on'
    obtain rfl := Option.some.inj on'
    rw [key] at key'
    rw [← hostOf_eq_lower.mpr (short n there hostname call), ← hostOf_eq_lower.mpr (short n' there' hostname' call')]
    exact Option.some.inj key'
  · intro ev older hostname addrs part returned
    obtain ⟨⟨n, member, call⟩, all, resolved, inside⟩ := (run.turned part).returns hostname addrs returned
    rw [← hostOf_eq_lower.mpr (short n (part.subset member) hostname call)]
    exact ⟨all, resolved, inside⟩
  · intro op enabled
    obtain ⟨s', out, step, -⟩ := inv.step op enabled
    rw [step]
    rfl

end

def noCache : Resolver Nat Nat := ⟨none, fun _ => ⟨none, 0, 0, 0⟩, fun _ => none⟩

theorem noCache_started : DnsStarted noCache := ⟨rfl, fun _ => rfl⟩

def lowerCase : CString := ⟨[97, 46, 98], by decide +kernel⟩
def mixedCase : CString := ⟨[65, 46, 98], by decide +kernel⟩

/-- The two spellings share an entry. -/
theorem cached_names_two_spellings :
    ∃ (past : List (DnsEvent Nat Nat)) (s : Resolver Nat Nat), DnsRun past s ∧
      past.map (·.out) = [.cached 0 [5], .found [5], .query lowerCase 1024 9, .ready] ∧ SameName past ∧
      ∀ op, dnsEnabled s op = true → (dnsStep s op).isSome = true := by
  obtain ⟨past, s, run, seen⟩ := Run.found (M := dnsMachine (ι := Nat) (τ := Nat))
    [.cacheInit 100 10000 101 true, .getaddrlist 1 mixedCase 1 9 true 100,
      .answered 1 (some ⟨[5], 60⟩) ⟨true, true, true, some 0⟩ 100, .getaddrlist 1 lowerCase 1 9 true 100]
    noCache_started
    (p := fun past s => decide (past.map (·.out) = [.cached 0 [5], .found [5], .query lowerCase 1024 9, .ready] ∧
      past.map (·.label) = [.getaddrlist 1 lowerCase 1 9 true 100, .answered 1 (some ⟨[5], 60⟩) ⟨true, true, true, some 0⟩ 100,
        .getaddrlist 1 mixedCase 1 9 true 100, .cacheInit 100 10000 101 true]))
    (by decide +kernel)
  obtain ⟨outs, labels⟩ := of_decide_eq_true seen
  have short : ∀ ev ∈ past, ∀ hostname, CachedCall ev hostname → hostname.bytes.length < hostSize := by
    rintro ev member hostname ⟨-, t, n, d, r, time, label⟩
    have there := List.mem_map_of_mem (f := (·.label)) member
    rw [labels, label] at there
    obtain ⟨-, rfl, -⟩ | ⟨-, rfl, -⟩ := by simpa using there
    · decide
    · decide
  obtain ⟨names, returns⟩ := cached_names past s run
  exact ⟨past, s, run, outs, names.mpr short, returns⟩

def longName (last : List UInt8) : List UInt8 := List.replicate 63 97 ++ [46] ++ List.replicate 63 97 ++ [46] ++ last
def inCom : CString := ⟨longName [99, 111, 109], by decide +kernel⟩
def inOrg : CString := ⟨longName [111, 114, 103], by decide +kernel⟩

/-- The addresses found for one name are returned for the other. -/
theorem other_host_answered :
    ∃ (past : List (DnsEvent Nat Nat)) (s : Resolver Nat Nat), DnsRun past s ∧
      past.map (·.label) = [.getaddrlist 1 inOrg 1 9 true 100, .answered 1 (some ⟨[5], 60⟩) ⟨true, true, true, some 0⟩ 100,
        .getaddrlist 1 inCom 1 9 true 100, .cacheInit 100 10000 101 true] ∧
      past.map (·.out) = [.cached 0 [5], .found [5], .query (hostOf inCom) 1024 9, .ready] ∧
      inCom.lower ≠ inOrg.lower ∧ ¬ SameName past := by
  obtain ⟨past, s, run, seen⟩ := Run.found (M := dnsMachine (ι := Nat) (τ := Nat))
    [.cacheInit 100 10000 101 true, .getaddrlist 1 inCom 1 9 true 100,
      .answered 1 (some ⟨[5], 60⟩) ⟨true, true, true, some 0⟩ 100, .getaddrlist 1 inOrg 1 9 true 100]
    noCache_started
    (p := fun past s => decide (past.map (·.label) = [.getaddrlist 1 inOrg 1 9 true 100,
        .answered 1 (some ⟨[5], 60⟩) ⟨true, true, true, some 0⟩ 100, .getaddrlist 1 inCom 1 9 true 100,
        .cacheInit 100 10000 101 true] ∧
      past.map (·.out) = [.cached 0 [5], .found [5], .query (hostOf inCom) 1024 9, .ready] ∧
      (past.head?.all fun ev => ev.pre.cache.isSome) = true))
    (by decide +kernel)
  obtain ⟨labels, outs, on⟩ := of_decide_eq_true seen
  refine ⟨past, s, run, labels, outs, by decide +kernel, fun same => ?_⟩
  cases past with
  | nil => cases labels
  | cons ev older =>
    have label : ev.label = .getaddrlist 1 inOrg 1 9 true 100 := (List.cons.inj labels).1
    have call : CachedCall ev inOrg := by
      refine ⟨?_, 1, 1, 9, true, 100, label⟩
      simpa [Option.isSome_iff_ne_none] using on
    have short := same.short run (List.mem_cons_self ..) call
    exact absurd short (by decide +kernel)

end StateThreads.Dns
