import StateThreads.Cache.Lru

/-! lrucache.c: the functions that show the entries to a callback. The calls of the callback
are recorded in order; it leaves the cache alone. -/
namespace StateThreads.Lru
open Chain

variable {ι K D : Type}

def Cache.shown (c : Cache ι K D) (e : ι) : K × D := ((c.entry e).key, (c.entry e).data)

/-- The loop over one chain, with fuel as for a search. -/
def traverseLoop (c : Cache ι K D) : Nat → Option ι → Option (List (K × D))
  | 0, _ => none
  | _ + 1, none => some []
  | fuel + 1, some e =>
    if c.life e ≠ .allocated then none
    else do
      let rest ← traverseLoop c fuel (c.table.load (.next e))
      some (if !(c.entry e).deletePending then c.shown e :: rest else rest)

def stxCacheTraverse (c : Cache ι K D) : Option (List (K × D)) := do
  let calls ← (List.range c.hashSize.toNat).mapM fun i => traverseLoop c (c.curSize.toNat + 1) (c.table.load (.root i))
  some calls.flatten

def lruLoop (c : Cache ι K D) : List ι → Nat → Option (List (K × D))
  | [], _ | _ :: _, 0 => some []
  | e :: q, n + 1 =>
    if c.life e ≠ .allocated then none
    else do
      let rest ← lruLoop c q n
      some (c.shown e :: rest)

def stxCacheTraverseLru (c : Cache ι K D) (n : Nat) : Option (List (K × D)) := lruLoop c c.lruList n

def stxCacheTraverseMru (c : Cache ι K D) (n : Nat) : Option (List (K × D)) := lruLoop c c.lruList.reverse n

end StateThreads.Lru
