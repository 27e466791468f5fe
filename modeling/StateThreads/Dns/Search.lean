import StateThreads.Cache.Dns

/-! _stx_dns_getaddrlist of dnsres.c: the names that are queried for a host. What
query_domain does with a name is a parameter. -/
namespace StateThreads.Dns

def maxDname : Nat := 1025

def maxLen : Nat := maxDname - 1

def dot : UInt8 := 46

/-- The parts of _res that are read. The flag init says that RES_INIT was set or that
res_init succeeded. -/
structure ResState where
  init : Bool
  usevc : Bool
  defnames : Bool
  dnsrch : Bool
  ndots : Nat
  search : List CString
deriving DecidableEq

inductive Queried where
  | asIs (host : CString)
  | array (name : List UInt8)
deriving DecidableEq

/-- The result of query_domain; it is interrupted when it fails and leaves NETDB_INTERNAL
in h_errno and EINTR in errno. -/
inductive Verdict where
  | found | interrupted | failed
deriving DecidableEq, Repr

/-- An assignment to an element of the array; one outside it is a fault. -/
def store (name : List UInt8) (i : Nat) (c : UInt8) : Option (List UInt8) :=
  if i < name.length then some (name.set i c) else none

def sizeT (i : Int) : Nat := (BitVec.ofInt 64 i).toNat

/-- strncpy writes exactly count bytes: those of the string, then zeros. -/
def strncpy (name : List UInt8) (start : Nat) (src : List UInt8) (count : Nat) : Option (List UInt8) :=
  if start + count ≤ name.length then
    some (name.take start ++ (src.take count ++ List.replicate (count - src.length) 0) ++ name.drop (start + count))
  else none

def copyName : List UInt8 → List UInt8 → Nat → Nat → Option (List UInt8 × Nat × Nat)
  | [], name, n, dots => some (name, n, dots)
  | c :: cs, name, n, dots =>
    if n < maxLen then do
      let name ← store name n c
      copyName cs name (n + 1) (if c = dot then dots + 1 else dots)
    else some (name, n, dots)

variable {σ : Type}

/- The loop over the search list, from the state s of what query_domain works on. It notes
each array that was passed, with its domain, and ends with a result if the call returns. -/
def searchLoop (query : σ → Queried → σ × Verdict) (dnsrch : Bool) (n : Nat) :
    List CString → σ → List UInt8 → Option (List (CString × List UInt8) × σ × Option Bool)
  | [], s, _ => some ([], s, none)
  | d :: ds, s, name => do
    let name ← strncpy name n d.bytes (sizeT (maxLen - n))
    match query s (.array name) with
    | (s, .found) => some ([(d, name)], s, some true)
    | (s, .interrupted) => some ([(d, name)], s, some false)
    | (s, .failed) =>
      if dnsrch then do
        let (passed, rest) ← searchLoop query dnsrch n ds s name
        some ((d, name) :: passed, rest)
      else some ([(d, name)], s, none)

def ResState.searches (res : ResState) (dots : Nat) (trailingDot : Bool) : Bool :=
  dots = 0 && res.defnames || dots ≠ 0 && !trailingDot && res.dnsrch

/-- The search, which starts with the dot behind the host. -/
def searchDomains (res : ResState) (query : σ → Queried → σ × Verdict) (name : List UInt8) (n dots : Nat)
    (trailingDot : Bool) (s : σ) : Option (List (CString × List UInt8) × σ × Option Bool) :=
  if res.searches dots trailingDot then do
    let name ← store name n dot
    searchLoop query res.dnsrch (n + 1) res.search s name
  else some ([], s, none)

/-- What follows the copy of the host: the host as it is, if it has enough dots, then the
search list, then the host if it was not tried. The result is true for 0. -/
def tryNames (res : ResState) (query : σ → Queried → σ × Verdict) (host : CString) (name : List UInt8) (n dots : Nat)
    (trailingDot : Bool) (s : σ) : Option (List (CString × List UInt8) × σ × Bool) :=
  let asIs := query s (.asIs host)
  if res.ndots ≤ dots && asIs.2 = .found then some ([], asIs.1, true)
  else if res.ndots ≤ dots && asIs.2 = .interrupted then some ([], asIs.1, false)
  else do
    let s := if res.ndots ≤ dots then asIs.1 else s
    let (passed, s, done) ← searchDomains res query name n dots trailingDot s
    match done with
    | some ok => some (passed, s, ok)
    | none =>
      if res.ndots ≤ dots then some (passed, s, false)
      else
        let asIs := query s (.asIs host)
        some (passed, asIs.1, asIs.2 = .found)

/-- A null host is treated like an empty one; opened says that there is a socket, and name
is the array as it is found on the stack. -/
def stxDnsGetaddrlist (res : ResState) (query : σ → Queried → σ × Verdict) (host : CString) (opened : Bool)
    (name : List UInt8) (s : σ) : Option (List (CString × List UInt8) × σ × Bool) :=
  if !res.init || res.usevc || host.bytes = [] || !opened then some ([], s, false)
  else do
    let (name, n, dots) ← copyName host.bytes name 0 0
    let last ← name[n - 1]?
    tryNames res query host name n dots (last = dot) s

end StateThreads.Dns
