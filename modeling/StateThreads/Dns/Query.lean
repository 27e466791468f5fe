import StateThreads.Dns.Answer
import StateThreads.Dns.Search

/-! query_domain of dnsres.c, and the resolver of dnscache.c on top of it. What the library
makes of a query and what comes over the network are inputs. -/
namespace StateThreads.Dns
open Lru LabelledRun

def maxPacket : Nat := 1024

/-- How a system call on the socket ended; a receive that is done has returned 0. -/
inductive IoEnd where
  | done | interrupted | failed
deriving DecidableEq, Repr

/-- One turn of the loop over the name servers: the message that res_mkquery leaves, empty
when it fails, the end of st_sendto, the datagrams received and the end of the receive after
them. The addresses are what the list holds before the parse; calls share addr_list. -/
structure Attempt where
  query : List UInt8
  sent : IoEnd
  datagrams : List (List UInt8)
  received : IoEnd
  addrs : List InAddr
deriving DecidableEq

/-- The loop that waits for the reply with the id of the query; none when the receive ends. -/
def waitReply (id : List UInt8) : List (List UInt8) → List UInt8 → Option (List UInt8)
  | [], _ => none
  | d :: ds, buf =>
    let d := d.take maxPacket
    let buf := d ++ buf.drop d.length
    if d = [] ∨ buf.take 2 = id then some d else waitReply id ds buf

def ntohsAt (buf : List UInt8) (i : Nat) : List UInt8 :=
  match buf[i]?, buf[i + 1]? with
  | some high, some low => (buf.set i low).set (i + 1) high
  | _, _ => buf

def hostOrder (d : List UInt8) : List UInt8 := ntohsAt (ntohsAt d ancountAt) qdcountAt

def answers (buf : List UInt8) : Bool := (buf[3]?.all fun b => b &&& 15 = 0) && hostShort buf ancountAt ≠ some 0

/-- query_domain: the reply it parsed with the result of that, or whether it leaves
NETDB_INTERNAL and EINTR. -/
inductive QueryResult where
  | fault
  | found (reply : List UInt8) (p : Parsed)
  | refused (interrupted : Bool)
deriving DecidableEq

/-- The loop over the name servers; before says what h_errno and errno are at its start. -/
def queryDomain (lib : NameLib) (numAddrs : Nat) : Bool → List Attempt → QueryResult
  | before, [] => .refused before
  | _, a :: as =>
    if a.query = [] then .refused false
    else match a.sent with
    | .interrupted => .refused true
    | .failed => queryDomain lib numAddrs false as
    | .done =>
      match waitReply (a.query.take 2) a.datagrams a.query with
      | none => if a.received = .interrupted then .refused true else queryDomain lib numAddrs false as
      | some d =>
        if d.length < headerSize ∨ answers (hostOrder d) = false then queryDomain lib numAddrs false as
        else match parseAnswer lib (hostOrder d) a.addrs numAddrs with
          | none => .fault
          | some p => if p.ok then .found (hostOrder d) p else queryDomain lib numAddrs false as

/-- The state of a call of _stx_dns_getaddrlist: the number of queries made, h_errno and
errno, a fault, and the reply that was taken. -/
structure CallState where
  queries : Nat
  interrupted : Bool
  fault : Bool
  taken : Option (List UInt8 × Parsed)
deriving DecidableEq

def ask (lib : NameLib) (numAddrs : Nat) (traffic : List (List Attempt)) (s : CallState) (_ : Queried) :
    CallState × Verdict :=
  match queryDomain lib numAddrs s.interrupted (traffic.getD s.queries []) with
  | .fault => ({ s with queries := s.queries + 1, fault := true }, .failed)
  | .found reply p => ({ s with queries := s.queries + 1, taken := some (reply, p) }, .found)
  | .refused interrupted =>
    ({ s with queries := s.queries + 1, interrupted := interrupted }, if interrupted then .interrupted else .failed)

structure Call where
  res : ResState
  opened : Bool
  name : List UInt8
  interrupted : Bool
  traffic : List (List Attempt)
deriving DecidableEq

def Call.result (lib : NameLib) (c : Call) (f : Frame) : Option (Option Reply) := do
  let (_, s, ok) ← stxDnsGetaddrlist c.res (ask lib f.limit c.traffic) f.asked c.opened c.name
    ⟨0, c.interrupted, false, none⟩
  if s.fault then none
  else if ok then s.taken.map fun (_, p) => some ⟨p.addrs.take p.numAddrs, p.ttl⟩
  else some none

variable {ι τ : Type} [DecidableEq ι] [DecidableEq τ]

inductive NetOp (ι τ : Type) where
  | cacheInit (maxSize maxBytes hashSize : Word) (ok : Bool)
  | getaddrlist (t : τ) (hostname : CString) (numAddrs : Nat) (timeout : Nat) (rotate : Bool) (now : Int)
  | replied (t : τ) (call : Call) (allocs : Allocs ι) (now : Int)
deriving DecidableEq

/-- The operation of dnscache.c, where what _stx_dns_getaddrlist returns is worked out. -/
def NetOp.dns (lib : NameLib) (s : Resolver ι τ) : NetOp ι τ → Option (DnsOp ι τ)
  | .cacheInit maxSize maxBytes hashSize ok => some (.cacheInit maxSize maxBytes hashSize ok)
  | .getaddrlist t hostname numAddrs timeout rotate now => some (.getaddrlist t hostname numAddrs timeout rotate now)
  | .replied t call allocs now => do
    let f ← s.waiting t
    let reply ← call.result lib f
    some (.answered t reply allocs now)

def netStep (lib : NameLib) (s : Resolver ι τ) (op : NetOp ι τ) : Option (Resolver ι τ × DnsRet ι) :=
  (op.dns lib s).bind (dnsStep s)

def Call.fits (c : Call) (f : Frame) : Bool := c.traffic.all fun as => as.all fun a => a.addrs.length = f.limit

def netEnabled (s : Resolver ι τ) : NetOp ι τ → Bool
  | .cacheInit maxSize maxBytes hashSize ok => dnsEnabled s (.cacheInit maxSize maxBytes hashSize ok)
  | .getaddrlist t hostname numAddrs timeout rotate now => dnsEnabled s (.getaddrlist t hostname numAddrs timeout rotate now)
  | .replied t call allocs _ => (s.waiting t).any fun f => call.fits f &&
      allocs.entry.all fun e => s.cache.all fun w => w.cache.life e = .unborn

def netMachine (lib : NameLib) : Machine (Resolver ι τ) (NetOp ι τ) (DnsRet ι) where
  enabled := netEnabled
  step := netStep lib

abbrev NetEvent (ι τ : Type) := Event (Resolver ι τ) (NetOp ι τ) (DnsRet ι)

abbrev NetRun (lib : NameLib) := Run (netMachine (ι := ι) (τ := τ) lib) DnsStarted

end StateThreads.Dns
