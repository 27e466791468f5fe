import StateThreads.Vp
import StateThreads.Lib.Chain

/-! lrucache.c, the cache of the extensions. Entries are named by identifiers, and memory
that is given out again gets a new one; the circular list of unreferenced entries is a list.
Reading or writing a freed entry, linking an entry that is linked or unlinking one that is
not is a fault, and a fault is none. -/
namespace StateThreads.Lru
open Chain

abbrev Word := BitVec 64

/-- key_hash_fn and key_cmp_fn: comparing equal is an equivalence, and equal keys have the
same hash. -/
structure KeyFns (K : Type) where
  keyHashFn : K → Word
  keyCmpFn : K → K → Int
  refl : ∀ a, keyCmpFn a a = 0
  symm : ∀ a b, keyCmpFn a b = 0 → keyCmpFn b a = 0
  trans : ∀ a b c, keyCmpFn a b = 0 → keyCmpFn b c = 0 → keyCmpFn a c = 0
  consistent : ∀ a b, keyCmpFn a b = 0 → keyHashFn a = keyHashFn b

/- struct _stx_centry; the links are kept with the table. -/
structure Entry (K D : Type) where
  key : K
  data : D
  weight : Word
  refCount : Nat
  deletePending : Bool
deriving DecidableEq, Repr

/-- struct _stx_cache and the entries. The calls of cleanup_fn are recorded in cleaned, the
last one first. -/
structure Cache (ι K D : Type) where
  maxSize : Word
  curSize : Word
  maxWeight : Word
  curWeight : Word
  hashSize : Word
  table : Links Nat ι
  lruList : List ι
  hits : Word
  lookups : Word
  inserts : Word
  deletes : Word
  hasCleanup : Bool
  entry : ι → Entry K D
  life : ι → Life
  cleaned : List (ι × K × D)

variable {ι K D : Type}

def stxCacheCreate (maxSize maxWeight hashSize : Word) (hasCleanup : Bool) (entry : ι → Entry K D) : Cache ι K D where
  maxSize := maxSize
  curSize := 0
  maxWeight := maxWeight
  curWeight := 0
  hashSize := hashSize
  table := ⟨fun _ => none, fun _ => none⟩
  lruList := []
  hits := 0
  lookups := 0
  inserts := 0
  deletes := 0
  hasCleanup := hasCleanup
  entry := entry
  life _ := .unborn
  cleaned := []

variable [DecidableEq ι]

def Cache.setEntry (c : Cache ι K D) (e : ι) (x : Entry K D) : Cache ι K D :=
  { c with entry := Function.update c.entry e x }

/-- stx_cache_entry_create; the memory is zeroed. -/
def stxCacheEntryCreate (c : Cache ι K D) (e : ι) (key : K) (data : D) (weight : Word) : Cache ι K D :=
  { c.setEntry e ⟨key, data, weight, 0, false⟩ with
    life := Function.update c.life e .allocated
    table := (c.table.store (.next e) none).forget e }

/-- A pointer variable that may be written. -/
def Cache.holds (c : Cache ι K D) : Slot Nat ι → Bool
  | .root _ => true
  | .next e => c.life e = .allocated

/-- A pointer whose target may be written. -/
def Cache.safe (c : Cache ι K D) (target : Option ι) : Bool := target.all fun e => c.life e = .allocated

def Cache.unlink (c : Cache ι K D) (p : Slot Nat ι) (e : ι) : Option (Cache ι K D) :=
  if c.holds p && c.safe (c.table.load (.next e)) && e ∈ c.lruList then
    some { c with
      table := c.table.unlink p e
      curSize := c.curSize - 1
      curWeight := c.curWeight - (c.entry e).weight
      deletes := c.deletes + 1
      lruList := c.lruList.erase e }
  else none

/-- The end of stx_cache_entry_delete: cleanup_fn, and free. -/
def Cache.free (c : Cache ι K D) (e : ι) : Cache ι K D :=
  { c with
    cleaned := if c.hasCleanup then (e, (c.entry e).key, (c.entry e).data) :: c.cleaned else c.cleaned
    table := c.table.forget e
    life := Function.update c.life e .freed }

def Cache.mark (c : Cache ι K D) (e : ι) : Cache ι K D := c.setEntry e { c.entry e with deletePending := true }

def stxCacheEntryDelete (c : Cache ι K D) (e : ι) : Option (Cache ι K D) :=
  if c.life e ≠ .allocated then none
  else
    let c := c.mark e
    if 0 < (c.entry e).refCount then some c
    else
      match c.table.pthis e with
      | some p => (c.unlink p e).map fun c => c.free e
      | none => some (c.free e)

/- The loop over a chain. Fuel is one more than the number of entries in the table, and
running out of it is a fault. -/
def findLoop (F : KeyFns K) (c : Cache ι K D) (key : K) : Nat → Option ι → Option (Option ι)
  | 0, _ => none
  | _ + 1, none => some none
  | fuel + 1, some e =>
    if c.life e ≠ .allocated then none
    else if (c.entry e).deletePending = false ∧ F.keyCmpFn key (c.entry e).key = 0 then some (some e)
    else findLoop F c key fuel (c.table.load (.next e))

def Cache.bucket (F : KeyFns K) (c : Cache ι K D) (key : K) : Nat := (F.keyHashFn key % c.hashSize).toNat

def Cache.find (F : KeyFns K) (c : Cache ι K D) (key : K) : Option (Option ι) :=
  findLoop F c key (c.curSize.toNat + 1) (c.table.load (.root (c.bucket F key)))

def stxCacheEntryLookup (F : KeyFns K) (c : Cache ι K D) (key : K) : Option (Cache ι K D × Option ι) := do
  let c := { c with lookups := c.lookups + 1 }
  let found ← c.find F key
  match found with
  | none => some (c, none)
  | some e =>
    let c := { c with hits := c.hits + 1 }
    if (c.entry e).refCount = 0 then
      if e ∈ c.lruList then
        let c := { c with lruList := c.lruList.erase e }
        some (c.setEntry e { c.entry e with refCount := 1 }, some e)
      else none
    else some (c.setEntry e { c.entry e with refCount := (c.entry e).refCount + 1 }, some e)

def stxCacheEntryRelease (c : Cache ι K D) (e : ι) : Option (Cache ι K D) :=
  if c.life e ≠ .allocated then none
  else if (c.entry e).refCount = 0 then some c
  else
    let c := c.setEntry e { c.entry e with refCount := (c.entry e).refCount - 1 }
    if (c.entry e).refCount = 0 then
      if e ∈ c.lruList then none
      else
        let c := { c with lruList := c.lruList ++ [e] }
        if (c.entry e).deletePending then stxCacheEntryDelete c e else some c
    else some c

def stxCacheEntryGetlru (c : Cache ι K D) : Option ι := c.lruList.head?

/- The loop that makes room. Each turn takes an entry off the list, so fuel is one more than
its length. The flag is false when the call is refused. -/
def evictLoop (weight : Word) : Nat → Cache ι K D → Option (Cache ι K D × Bool)
  | 0, _ => none
  | fuel + 1, c =>
    if c.maxWeight < c.curWeight + weight then
      match stxCacheEntryGetlru c with
      | none => some (c, false)
      | some old => do
        let c ← stxCacheEntryDelete c old
        evictLoop weight fuel c
    else some (c, true)

/-- Room for one more entry, by number. -/
def evictOne (c : Cache ι K D) : Option (Cache ι K D × Bool) :=
  if c.maxSize ≤ c.curSize then
    match stxCacheEntryGetlru c with
    | none => some (c, false)
    | some old => (stxCacheEntryDelete c old).map fun c => (c, true)
  else some (c, true)

/-- The first two parts of stx_cache_entry_insert. -/
def makeRoom (c : Cache ι K D) (weight : Word) : Option (Cache ι K D × Bool) := do
  let (c, room) ← evictLoop weight (c.lruList.length + 1) c
  if room then evictOne c else some (c, false)

def Cache.link (F : KeyFns K) (c : Cache ι K D) (e : ι) : Option (Cache ι K D) :=
  let bucket := c.bucket F (c.entry e).key
  if c.safe (c.table.load (.root bucket)) then
    some { c.setEntry e { c.entry e with refCount := (c.entry e).refCount + 1 } with
      table := c.table.push bucket e
      inserts := c.inserts + 1
      curSize := c.curSize + 1
      curWeight := c.curWeight + (c.entry e).weight }
  else none

/-- The rest of it: no two entries for one key. -/
def Cache.replace (F : KeyFns K) (c : Cache ι K D) (e : ι) : Option (Cache ι K D) := do
  match ← c.find F (c.entry e).key with
  | some old =>
    let c ← stxCacheEntryDelete c old
    c.link F e
  | none => c.link F e

/-- stx_cache_entry_insert; the flag is false for a result of -1. -/
def stxCacheEntryInsert (F : KeyFns K) (c : Cache ι K D) (e : ι) : Option (Cache ι K D × Bool) :=
  if c.life e ≠ .allocated then none
  else do
    let (c, room) ← makeRoom c (c.entry e).weight
    if room then (c.replace F e).map fun c => (c, true) else some (c, false)

/-- The loop of stx_cache_empty over one chain; the next link is read before the entry is
deleted. -/
def emptyLoop : Nat → Cache ι K D → Option ι → Option (Cache ι K D)
  | 0, _, _ => none
  | _ + 1, c, none => some c
  | fuel + 1, c, some e =>
    if c.life e ≠ .allocated then none
    else do
      let next := c.table.load (.next e)
      let c ← stxCacheEntryDelete c e
      emptyLoop fuel c next

def stxCacheEmpty (c : Cache ι K D) : Option (Cache ι K D) :=
  (List.range c.hashSize.toNat).foldlM (fun c i => emptyLoop (c.curSize.toNat + 1) c (c.table.load (.root i))) c

end StateThreads.Lru
