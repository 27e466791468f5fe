import StateThreads.Cache.Clients

/-! dnscache.c, the resolver in front of the cache. A call of _stx_dns_cache_getaddrlist gives
up the processor only inside _stx_dns_getaddrlist, so it is one step up to there and one step
from there. What the name servers answer is an input. -/
namespace StateThreads.Dns
open Lru LabelledRun

structure CString where
  bytes : List UInt8
  nonzero : ∀ c ∈ bytes, c ≠ 0
deriving DecidableEq

/-- tolower in the C locale. -/
def tolower (c : UInt8) : UInt8 := if 65 ≤ c ∧ c ≤ 90 then c + 32 else c

theorem tolower_ne_zero {c : UInt8} (h : c ≠ 0) : tolower c ≠ 0 := by
  unfold tolower
  split
  · rename_i upper
    intro zero
    have low : (65 : Nat) ≤ c.toNat := UInt8.le_iff_toNat_le.mp upper.1
    have high : c.toNat ≤ 90 := UInt8.le_iff_toNat_le.mp upper.2
    have sum := congrArg UInt8.toNat zero
    rw [UInt8.toNat_add] at sum
    simp at sum
    omega
  · exact h

/-- The result of strcmp: the difference of the first bytes that differ. -/
def strcmp : List UInt8 → List UInt8 → Int
  | [], [] => 0
  | [], b :: _ => -(b.toNat : Int)
  | a :: _, [] => a.toNat
  | a :: as, b :: bs => if a = b then strcmp as bs else (a.toNat : Int) - b.toNat

/-- hash = hash * 15 + *name++; char is signed. -/
def hashHostname (name : List UInt8) : Word :=
  name.foldl (fun hash c => (hash <<< 4) - hash + c.toBitVec.signExtend 64) 0

theorem strcmp_self (a : List UInt8) : strcmp a a = 0 := by
  induction a with
  | nil => rfl
  | cons c as ih => simpa [strcmp] using ih

theorem strcmp_eq_zero {a b : List UInt8} (ha : ∀ c ∈ a, c ≠ 0) (hb : ∀ c ∈ b, c ≠ 0) (same : strcmp a b = 0) : a = b := by
  have positive : ∀ {c : UInt8}, c ≠ 0 → 0 < c.toNat := by
    intro c h
    exact Nat.pos_of_ne_zero fun zero => h (UInt8.toNat_inj.mp zero)
  induction a generalizing b with
  | nil =>
    cases b with
    | nil => rfl
    | cons d bs =>
      have := positive (hb d (List.mem_cons_self ..))
      simp only [strcmp] at same
      omega
  | cons c as ih =>
    cases b with
    | nil =>
      have := positive (ha c (List.mem_cons_self ..))
      simp only [strcmp] at same
      omega
    | cons d bs =>
      simp only [strcmp] at same
      split at same
      · rename_i equal
        rw [equal, ih (fun x h => ha x (List.mem_cons_of_mem _ h)) (fun x h => hb x (List.mem_cons_of_mem _ h)) same]
      · rename_i differ
        exact absurd (UInt8.toNat_inj.mp (by omega)) differ

/-- A char pointer, which strdup may have left null. -/
abbrev Key := Option CString

/-- A null key is never put into the cache, so it does not matter how it compares. -/
def keyCmp : Key → Key → Int
  | some a, some b => strcmp a.bytes b.bytes
  | none, none => 0
  | _, _ => 1

theorem keyCmp_eq_zero {a b : Key} : keyCmp a b = 0 ↔ a = b := by
  constructor
  · intro same
    cases a with
    | none => cases b with
      | none => rfl
      | some b => simp [keyCmp] at same
    | some a => cases b with
      | none => simp [keyCmp] at same
      | some b =>
        have bytes := strcmp_eq_zero a.nonzero b.nonzero same
        cases a; cases b
        simpa using bytes
  · rintro rfl
    cases a with
    | none => rfl
    | some a => exact strcmp_self a.bytes

def dnsKeys : KeyFns Key where
  keyHashFn key := hashHostname (key.elim [] CString.bytes)
  keyCmpFn := keyCmp
  refl _ := keyCmp_eq_zero.mpr rfl
  symm _ _ same := keyCmp_eq_zero.mpr (keyCmp_eq_zero.mp same).symm
  trans _ _ _ first second := keyCmp_eq_zero.mpr ((keyCmp_eq_zero.mp first).trans (keyCmp_eq_zero.mp second))
  consistent _ _ same := by rw [keyCmp_eq_zero.mp same]

def hostSize : Nat := 128

def copyLoop : Nat → List UInt8 → List UInt8
  | 0, _ => []
  | _ + 1, [] => []
  | room + 1, c :: rest => tolower c :: copyLoop room rest

theorem copyLoop_eq (room : Nat) (name : List UInt8) : copyLoop room name = (name.take room).map tolower := by
  induction name generalizing room with
  | nil => cases room <;> simp [copyLoop]
  | cons c rest ih =>
    cases room with
    | zero => simp [copyLoop]
    | succ room => simp [copyLoop, ih]

theorem map_tolower_nonzero {name : List UInt8} (h : ∀ c ∈ name, c ≠ 0) : ∀ c ∈ name.map tolower, c ≠ 0 := by
  intro c member
  obtain ⟨d, there, rfl⟩ := List.mem_map.mp member
  exact tolower_ne_zero (h d there)

def hostOf (hostname : CString) : CString where
  bytes := copyLoop (hostSize - 1) hostname.bytes
  nonzero := by
    rw [copyLoop_eq]
    exact map_tolower_nonzero fun c member => hostname.nonzero c (List.mem_of_mem_take member)

abbrev InAddr := BitVec 32

structure DnsData where
  addrs : Option (List InAddr)
  numAddrs : Nat
  cur : Nat
  expires : Int
deriving DecidableEq, Repr

/-- What _stx_dns_getaddrlist finds: the addresses it stores, and the value of _stx_dns_ttl,
which is not positive unless there is an address. -/
structure Reply where
  addrs : List InAddr
  ttl : Int
deriving DecidableEq, Repr

structure Allocs (ι : Type) where
  key : Bool
  data : Bool
  addrs : Bool
  entry : Option ι
deriving DecidableEq

structure Frame where
  hostname : CString
  host : Option CString
  numAddrs : Nat
deriving DecidableEq

def Frame.asked (f : Frame) : CString := f.host.getD f.hostname

def maxHostAddrs : Nat := 1024

def Frame.limit (f : Frame) : Nat := if f.host.isSome then maxHostAddrs else f.numAddrs

variable {ι τ : Type}

abbrev DnsWorld (ι τ : Type) := World ι τ Key (Option ι)

/-- _stx_dns_cache, the data of its entries, named by the entries, and the calls that wait. -/
structure Resolver (ι τ : Type) where
  cache : Option (DnsWorld ι τ)
  data : ι → DnsData
  waiting : τ → Option Frame

inductive DnsOp (ι τ : Type) where
  | cacheInit (maxSize maxBytes hashSize : Word) (ok : Bool)
  | getaddrlist (t : τ) (hostname : CString) (numAddrs : Nat) (timeout : Nat) (rotate : Bool) (now : Int)
  | answered (t : τ) (reply : Option Reply) (allocs : Allocs ι) (now : Int)
deriving DecidableEq

/- cached is a result of 0 from the cache, found a result of 0 after a query. -/
inductive DnsRet (ι : Type) where
  | ready
  | query (name : CString) (limit : Nat) (timeout : Nat)
  | cached (e : ι) (addrs : List InAddr)
  | found (addrs : List InAddr)
  | failed
deriving DecidableEq

def copyAddrs (addrs : List InAddr) (n : Nat) : Option (List InAddr) :=
  if n ≤ addrs.length then some (addrs.take n) else none

def DnsData.read (data : DnsData) (numAddrs : Nat) (rotate : Bool) : Option (List InAddr × DnsData) := do
  let addrs ← data.addrs
  if numAddrs = 1 then
    if rotate then
      let a ← addrs[data.cur]?
      some ([a], { data with cur := if data.numAddrs ≤ data.cur + 1 then 0 else data.cur + 1 })
    else
      let a ← addrs[0]?
      some ([a], data)
  else
    let copied ← copyAddrs addrs (min numAddrs data.numAddrs)
    some (copied, data)

variable [DecidableEq ι] [DecidableEq τ]

def lookupEntry (t : τ) (w : DnsWorld ι τ) (heap : ι → DnsData) (host : CString) (numAddrs : Nat) (rotate : Bool)
    (now : Int) : Option (DnsWorld ι τ × (ι → DnsData) × Option (ι × List InAddr)) := do
  let (w, out) ← cacheStep dnsKeys w (.lookup t (some host))
  match out with
  | .entry (some e) =>
    let d ← (w.cache.entry e).data
    if now ≤ (heap d).expires then
      let (addrs, data) ← (heap d).read numAddrs rotate
      let (w, _) ← cacheStep dnsKeys w (.release t e)
      some (w, Function.update heap d data, some (e, addrs))
    else
      let (w, _) ← cacheStep dnsKeys w (.release t e)
      let (w, _) ← cacheStep dnsKeys w (.delete e)
      some (w, heap, none)
  | _ => some (w, heap, none)

/-- strlen(host) + 1 + sizeof(stx_dns_data_t) + n + stx_cache_entry_sizeof(). -/
def entryWeight (host : CString) (count : Nat) : Word := BitVec.ofNat 64 (host.bytes.length + 1 + 24 + 4 * count + 64)

/- Without an entry the key and the data are freed at once. -/
def insertEntry (t : τ) (w : DnsWorld ι τ) (heap : ι → DnsData) (host : CString) (reply : Reply) (allocs : Allocs ι)
    (now : Int) : Option (DnsWorld ι τ × (ι → DnsData)) :=
  if 0 < reply.ttl then do
    let count := reply.addrs.length
    let key : Key := if allocs.key then some host else none
    let data : Option ι := if allocs.data then allocs.entry else none
    let addrs := if allocs.addrs then some reply.addrs else none
    let (w, out) ← cacheStep dnsKeys w (.create allocs.entry key data (entryWeight host count))
    match out with
    | .entry (some e) =>
      let heap := if allocs.data then Function.update heap e ⟨addrs, count, 0, now + reply.ttl⟩ else heap
      if allocs.key && allocs.data && allocs.addrs then
        let (w, out) ← cacheStep dnsKeys w (.insert t e)
        if out = .status true then
          let (w, _) ← cacheStep dnsKeys w (.release t e)
          some (w, heap)
        else
          let (w, _) ← cacheStep dnsKeys w (.delete e)
          some (w, heap)
      else
        let (w, _) ← cacheStep dnsKeys w (.delete e)
        some (w, heap)
    | _ => some (w, heap)
  else some (w, heap)

def Resolver.await (s : Resolver ι τ) (t : τ) (f : Option Frame) : Resolver ι τ :=
  { s with waiting := Function.update s.waiting t f }

/-- _stx_dns_cache_getaddrlist up to the call of _stx_dns_getaddrlist, if it comes to that. -/
def stxDnsCacheGetaddrlist (s : Resolver ι τ) (t : τ) (hostname : CString) (numAddrs timeout : Nat) (rotate : Bool)
    (now : Int) : Option (Resolver ι τ × DnsRet ι) :=
  match s.cache with
  | none => some (s.await t (some ⟨hostname, none, numAddrs⟩), .query hostname numAddrs timeout)
  | some w => do
    let host := hostOf hostname
    let (w, heap, hit) ← lookupEntry t w s.data host numAddrs rotate now
    let s := { s with cache := some w, data := heap }
    match hit with
    | some (e, addrs) => some (s, .cached e addrs)
    | none => some (s.await t (some ⟨hostname, some host, numAddrs⟩), .query host maxHostAddrs timeout)

/-- The rest of it, with what _stx_dns_getaddrlist returns. -/
def stxDnsCacheResume (s : Resolver ι τ) (t : τ) (reply : Option Reply) (allocs : Allocs ι) (now : Int) :
    Option (Resolver ι τ × DnsRet ι) := do
  let f ← s.waiting t
  let s := s.await t none
  match reply, f.host with
  | none, _ => some (s, .failed)
  | some reply, none => some (s, .found reply.addrs)
  | some reply, some host =>
    let copied ← copyAddrs reply.addrs (min f.numAddrs reply.addrs.length)
    let w ← s.cache
    let (w, heap) ← insertEntry t w s.data host reply allocs now
    some ({ s with cache := some w, data := heap }, .found copied)

def newCache (maxSize maxBytes hashSize : Word) : DnsWorld ι τ where
  cache := stxCacheCreate maxSize maxBytes hashSize true fun _ => ⟨none, none, 0, 0, false⟩
  refs := []
  inserted _ := false

def stxDnsCacheInit (s : Resolver ι τ) (maxSize maxBytes hashSize : Word) (ok : Bool) : Resolver ι τ :=
  { s with cache := if ok then some (newCache maxSize maxBytes hashSize) else none }

def dnsStep (s : Resolver ι τ) : DnsOp ι τ → Option (Resolver ι τ × DnsRet ι)
  | .cacheInit maxSize maxBytes hashSize ok =>
    some (stxDnsCacheInit s maxSize maxBytes hashSize ok, if ok then .ready else .failed)
  | .getaddrlist t hostname numAddrs timeout rotate now => stxDnsCacheGetaddrlist s t hostname numAddrs timeout rotate now
  | .answered t reply allocs now => stxDnsCacheResume s t reply allocs now

def entryWeightMax : Nat := hostSize + 24 + 4 * maxHostAddrs + 64

def Reply.fits (r : Reply) (f : Frame) : Bool := r.addrs.length ≤ f.limit && (r.ttl ≤ 0 || r.addrs ≠ [])

/-- The cache is set up once, with at least one bucket, and the total of the weights does not
wrap; a thread makes one call at a time, and gets new memory. -/
def dnsEnabled (s : Resolver ι τ) : DnsOp ι τ → Bool
  | .cacheInit _ maxBytes hashSize _ => s.cache.isNone && decide (0 < hashSize) && decide (maxBytes.toNat + entryWeightMax < 2 ^ 64)
  | .getaddrlist t _ _ _ _ _ => (s.waiting t).isNone
  | .answered t reply allocs _ => (s.waiting t).any fun f => reply.all (fun r => r.fits f) &&
      allocs.entry.all fun e => s.cache.all fun w => w.cache.life e = .unborn

def dnsMachine : Machine (Resolver ι τ) (DnsOp ι τ) (DnsRet ι) where
  enabled := dnsEnabled
  step := dnsStep

def DnsStarted (s : Resolver ι τ) : Prop := s.cache = none ∧ ∀ t, s.waiting t = none

abbrev DnsEvent (ι τ : Type) := Event (Resolver ι τ) (DnsOp ι τ) (DnsRet ι)

abbrev DnsRun := Run (dnsMachine (ι := ι) (τ := τ)) DnsStarted

end StateThreads.Dns
