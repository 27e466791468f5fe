import StateThreads.Cache.Dns
import StateThreads.Contract.CacheUse

/-! What lookup_entry and insert_entry of dnscache.c do to the cache: the addresses stored
under a name stay those that were put there for it. -/
namespace StateThreads.Dns
open Lru LabelledRun

variable {ι τ : Type}

structure Holds (w : DnsWorld ι τ) (heap : ι → DnsData) (e : ι) (host : CString) (addrs : List InAddr) : Prop where
  key : (w.cache.entry e).key = some host
  data : (w.cache.entry e).data = some e
  list : (heap e).addrs = some addrs
  count : (heap e).numAddrs = addrs.length
  cur : (heap e).cur < addrs.length

def Filled (w : DnsWorld ι τ) (heap : ι → DnsData) (P : CString → List InAddr → Prop) : Prop :=
  ∀ e, w.inserted e = true → w.cache.life e ≠ .unborn ∧ ∃ host addrs, Holds w heap e host addrs ∧ P host addrs

theorem DnsData.read_spec {data : DnsData} {addrs : List InAddr} (here : data.addrs = some addrs)
    (count : data.numAddrs = addrs.length) (cur : data.cur < addrs.length) (numAddrs : Nat) (rotate : Bool) :
    ∃ out data', data.read numAddrs rotate = some (out, data') ∧ out ⊆ addrs ∧ data'.addrs = some addrs ∧
      data'.numAddrs = addrs.length ∧ data'.cur < addrs.length := by
  simp only [DnsData.read, here, Option.bind_eq_bind, Option.bind_some]
  split
  · split
    · refine ⟨[addrs[data.cur]], ⟨some addrs, data.numAddrs,
        if data.numAddrs ≤ data.cur + 1 then 0 else data.cur + 1, data.expires⟩, ?_, ?_, rfl, count, ?_⟩
      · rw [List.getElem?_eq_getElem cur]
        rfl
      · simp
      · dsimp only
        split <;> omega
    · have first : 0 < addrs.length := by omega
      refine ⟨[addrs[0]], data, ?_, ?_, here, count, cur⟩
      · rw [List.getElem?_eq_getElem first]
        rfl
      · simp
  · refine ⟨addrs.take (min numAddrs data.numAddrs), data, ?_, List.take_subset .., here, count, cur⟩
    rw [copyAddrs, if_pos (by omega)]
    rfl

section
variable {w w' : DnsWorld ι τ} {heap : ι → DnsData} {P Q : CString → List InAddr → Prop}

theorem Filled.imp (filled : Filled w heap P) (imp : ∀ host addrs, P host addrs → Q host addrs) : Filled w heap Q := by
  intro e put
  obtain ⟨born, host, addrs, holds, p⟩ := filled e put
  exact ⟨born, host, addrs, holds, imp host addrs p⟩

theorem Holds.follows {e : ι} {host : CString} {addrs : List InAddr} (holds : Holds w heap e host addrs)
    (follows : Follows w w') (born : w.cache.life e ≠ .unborn) : Holds w' heap e host addrs := by
  obtain ⟨-, key, data⟩ := follows.constant e born
  exact ⟨key.trans holds.key, data.trans holds.data, holds.list, holds.count, holds.cur⟩

theorem Filled.follows (filled : Filled w heap P) (follows : Follows w w')
    (same : ∀ {e}, w'.inserted e = true → w.inserted e = true) : Filled w' heap P := by
  intro e put
  obtain ⟨born, host, addrs, holds, p⟩ := filled e (same put)
  exact ⟨(follows.constant e born).1, host, addrs, holds.follows follows born, p⟩

variable [DecidableEq ι] {e : ι}

theorem Filled.update (filled : Filled w heap P) (new : w.inserted e = false) (data : DnsData) :
    Filled w (Function.update heap e data) P := by
  intro x put
  obtain ⟨born, host, addrs, holds, p⟩ := filled x put
  have other : x ≠ e := by
    rintro rfl
    rw [new] at put
    cases put
  refine ⟨born, host, addrs, ?_, p⟩
  refine ⟨holds.key, holds.data, ?_, ?_, ?_⟩ <;>
    simp only [Function.update_of_ne other, holds.list, holds.count, holds.cur]

theorem Filled.turned {data : DnsData} {addrs : List InAddr} (filled : Filled w heap P) (list : (heap e).addrs = some addrs)
    (same : data.addrs = some addrs ∧ data.numAddrs = addrs.length ∧ data.cur < addrs.length) :
    Filled w (Function.update heap e data) P := by
  intro x put
  obtain ⟨born, host, addrs', holds, p⟩ := filled x put
  refine ⟨born, host, addrs', ?_, p⟩
  by_cases this : x = e
  · subst this
    obtain rfl : addrs' = addrs := Option.some.inj (holds.list.symm.trans list)
    refine ⟨holds.key, holds.data, ?_, ?_, ?_⟩ <;> simp [same]
  · refine ⟨holds.key, holds.data, ?_, ?_, ?_⟩ <;>
      simp only [Function.update_of_ne this, holds.list, holds.count, holds.cur]

end

structure Grew [DecidableEq ι] [DecidableEq τ] (w : DnsWorld ι τ) (P : CString → List InAddr → Prop) (w' : DnsWorld ι τ)
    (heap : ι → DnsData) : Prop where
  run : ∃ hist, CacheRun dnsKeys hist w'
  follows : Follows w w'
  filled : Filled w' heap P

variable [DecidableEq ι] [DecidableEq τ] {w w₁ w₂ : DnsWorld ι τ} {heap : ι → DnsData} {P : CString → List InAddr → Prop}
  {hist : List (CacheEvent ι τ Key (Option ι))} {op : CacheOp ι τ Key (Option ι)} {out : CacheRet ι} {e : ι}

theorem Grew.call (grew : Grew w P w₁ heap) (called : Called dnsKeys hist w₁ op w₂ out) (other : ∀ h x, op ≠ .insert h x) :
    Grew w P w₂ heap :=
  ⟨⟨_, called.run⟩, grew.follows.trans called.follows, grew.filled.follows called.follows (called.same other)⟩

theorem Grew.put {t : τ} {host : CString} {addrs : List InAddr} (grew : Grew w P w₁ heap)
    (called : Called dnsKeys hist w₁ (.insert t e) w₂ out) (born : w₁.cache.life e ≠ .unborn)
    (holds : Holds w₁ heap e host addrs) (p : P host addrs) : Grew w P w₂ heap := by
  refine ⟨⟨_, called.run⟩, grew.follows.trans called.follows, fun x put => ?_⟩
  obtain old | ⟨h, this, -⟩ := (called.inserted x).mp put
  · obtain ⟨born', host', addrs', holds', p'⟩ := grew.filled x old
    exact ⟨(called.follows.constant x born').1, host', addrs', holds'.follows called.follows born', p'⟩
  · obtain ⟨-, rfl⟩ : t = h ∧ e = x := by simpa using this
    exact ⟨(called.follows.constant e born).1, host, addrs, holds.follows called.follows born, p⟩

theorem lookupEntry_spec (run : CacheRun dnsKeys hist w) (filled : Filled w heap P) (t : τ) (host : CString)
    (numAddrs : Nat) (rotate : Bool) (now : Int) :
    ∃ w' heap' hit, lookupEntry t w heap host numAddrs rotate now = some (w', heap', hit) ∧ Grew w P w' heap' ∧
      ∀ e addrs, hit = some (e, addrs) → w.cache.life e ≠ .unborn ∧ (w.cache.entry e).key = some host ∧
        ∃ all, P host all ∧ addrs ⊆ all := by
  obtain ⟨w₁, found, looked, hits⟩ := CacheRun.lookup run t (some host)
  have start : Grew w P w heap := ⟨⟨hist, run⟩, Follows.refl w, filled⟩
  have grew₁ := start.call looked (by simp)
  simp only [lookupEntry, looked.step, Option.bind_eq_bind, Option.bind_some]
  cases found with
  | none => exact ⟨w₁, heap, none, rfl, grew₁, by simp⟩
  | some e =>
    obtain ⟨holds, put, equal, born, never⟩ := hits e rfl
    obtain ⟨-, host', addrs, entry, p⟩ := filled e put
    obtain rfl : host = host' := by
      have same := keyCmp_eq_zero.mp equal
      rw [entry.key] at same
      exact Option.some.inj same
    obtain ⟨w₂, released⟩ := CacheRun.release looked.run holds
    have grew₂ := grew₁.call released (by simp)
    simp only [(entry.follows looked.follows born).data, Option.bind_some]
    split
    · obtain ⟨out, data, read, part, same⟩ := DnsData.read_spec entry.list entry.count entry.cur numAddrs rotate
      refine ⟨w₂, Function.update heap e data, some (e, out), ?_, ⟨grew₂.run, grew₂.follows, ?_⟩, ?_⟩
      · simp only [read, released.step, Option.bind_some]
      · exact grew₂.filled.turned entry.list same
      · rintro x out' ⟨rfl, rfl⟩
        exact ⟨born, entry.key, addrs, p, part⟩
    · -- nothing has removed the entry since it was found, so it may be deleted
      have alive : w₂.cache.life e = .allocated := by
        refine CacheRun.lives released.run (grew₂.follows.constant e born).1 fun ev member => ?_
        obtain rfl | rfl | old := by simpa using member
        · simp [Removed]
        · simp [Removed]
        · exact never ev old
      obtain ⟨w₃, deleted⟩ := CacheRun.delete released.run alive
      refine ⟨w₃, heap, none, ?_, grew₂.call deleted (by simp), by simp⟩
      simp only [released.step, deleted.step, Option.bind_some]

theorem entryWeight_le {host : CString} {count : Nat} (short : host.bytes.length < hostSize) (few : count ≤ maxHostAddrs) :
    (entryWeight host count).toNat ≤ entryWeightMax := by
  rw [entryWeight, BitVec.toNat_ofNat]
  simp only [hostSize, maxHostAddrs, entryWeightMax] at *
  omega

theorem Grew.drop (grew : Grew w P w₁ heap) (run : CacheRun dnsKeys hist w₁) (alive : w₁.cache.life e = .allocated)
    (out : w₁.inserted e = false) :
    ∃ w', cacheStep dnsKeys w₁ (.delete e) = some (w', .done) ∧ Grew w P w' heap ∧ w'.inserted e = false := by
  obtain ⟨w', deleted⟩ := CacheRun.delete run alive
  refine ⟨w', deleted.step, grew.call deleted (by simp), ?_⟩
  by_contra put
  rw [deleted.same (by simp) (by simpa using put)] at out
  cases out

theorem insertEntry_spec (run : CacheRun dnsKeys hist w) (filled : Filled w heap P) (t : τ) {host : CString} {reply : Reply}
    {allocs : Allocs ι} (now : Int) (short : host.bytes.length < hostSize) (few : reply.addrs.length ≤ maxHostAddrs)
    (some_addr : 0 < reply.ttl → reply.addrs ≠ []) (new : ∀ e, allocs.entry = some e → w.cache.life e = .unborn)
    (room : w.cache.maxWeight.toNat + entryWeightMax < 2 ^ 64) (p : P host reply.addrs) :
    ∃ w' heap', insertEntry t w heap host reply allocs now = some (w', heap') ∧ Grew w P w' heap' ∧
      ∀ e, allocs.entry = some e → w'.inserted e = true →
        w'.cache.life e ≠ .unborn ∧ (w'.cache.entry e).key = some host := by
  have start : Grew w P w heap := ⟨⟨hist, run⟩, Follows.refl w, filled⟩
  obtain ⟨key, data, addrs, entry⟩ := allocs
  unfold insertEntry
  cases entry with
  | none =>
    refine ⟨w, heap, ?_, start, by simp⟩
    split <;> rfl
  | some e =>
    have unborn := new e rfl
    have before : w.inserted e = false := by
      obtain ⟨chains, es, inv⟩ := CacheRun.inv run
      exact inv.kept.unborn e unborn
    -- an entry that is not put in has no name to have
    have nothing : ∀ {w' : DnsWorld ι τ}, w'.inserted e = false → ∀ x, some e = some x → w'.inserted x = true →
        w'.cache.life x ≠ .unborn ∧ (w'.cache.entry x).key = some host := by
      rintro w' out x ⟨rfl⟩ put
      rw [out] at put
      cases put
    split
    case isFalse => exact ⟨w, heap, rfl, start, nothing before⟩
    rename_i positive
    obtain ⟨w₁, created, alive, entry, fresh⟩ := CacheRun.create run unborn (if key then some host else none)
      (if data then some e else none) (entryWeight host reply.addrs.length)
    simp only [created.step, Option.bind_eq_bind, Option.bind_some]
    generalize stored : (if data = true then Function.update heap e
      ⟨if addrs = true then some reply.addrs else none, reply.addrs.length, 0, now + reply.ttl⟩ else heap) = heap₁
    have made := start.call created (by simp)
    have grew₁ : Grew w P w₁ heap₁ := by
      refine ⟨made.run, made.follows, ?_⟩
      rw [← stored]
      split
      · exact made.filled.update fresh _
      · exact made.filled
    split
    case isFalse =>
      obtain ⟨w', step, grew, out⟩ := grew₁.drop created.run alive fresh
      exact ⟨w', heap₁, by rw [step]; rfl, grew, nothing out⟩
    rename_i all
    simp only [Bool.and_eq_true] at all
    obtain ⟨⟨rfl, rfl⟩, rfl⟩ := all
    have small : w₁.cache.maxWeight.toNat + (w₁.cache.entry e).weight.toNat < 2 ^ 64 := by
      rw [created.follows.capacity, entry]
      have := entryWeight_le short few
      dsimp only
      omega
    have holds : Holds w₁ heap₁ e host reply.addrs := by
      refine ⟨by simp [entry], by simp [entry], ?_, ?_, ?_⟩
      · simp [← stored]
      · simp [← stored]
      · simpa [← stored] using List.length_pos_iff.mpr (some_addr positive)
    obtain ⟨w₂, ok, inserted, alive₂, held⟩ := CacheRun.insert created.run alive fresh small t
    have grew₂ := grew₁.put inserted (by simp [alive]) holds p
    simp only [inserted.step, Option.bind_some]
    cases ok with
    | false =>
      have out : w₂.inserted e = false := by
        by_contra put
        rw [show w₁.inserted e = true by simpa using (inserted.inserted e).mp (by simpa using put)] at fresh
        cases fresh
      obtain ⟨w', step, grew, out'⟩ := grew₂.drop inserted.run alive₂ out
      exact ⟨w', heap₁, by simp [step], grew, nothing out'⟩
    | true =>
      obtain ⟨w₃, released⟩ := CacheRun.release inserted.run (held rfl)
      refine ⟨w₃, heap₁, by simp [released.step], grew₂.call released (by simp), ?_⟩
      rintro x ⟨rfl⟩ -
      have follows := inserted.follows.trans released.follows
      have born : w₁.cache.life e ≠ .unborn := by simp [alive]
      exact ⟨(follows.constant e born).1, (holds.follows follows born).key⟩

end StateThreads.Dns
