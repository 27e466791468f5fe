import StateThreads.Cache.Dns

/-! parse_answer of dnsres.c. A buffer is the list of its bytes below eoa, so that a read at
or beyond eoa is a fault; so is a write outside the list of addresses. -/
namespace StateThreads.Dns

/-- dn_skipname and dn_expand of the resolver library, on a message and a position in it.
They return the encoded length of the name there, or none for -1. -/
structure NameLib where
  dnSkipname : List UInt8 → Nat → Option Nat
  dnExpand : List UInt8 → Nat → Option Nat

def hostShort (buf : List UInt8) (i : Nat) : Option Nat := do
  let low ← buf[i]?
  let high ← buf[i + 1]?
  some (low.toNat + 256 * high.toNat)

def setHostShort (buf : List UInt8) (i n : Nat) : List UInt8 :=
  (buf.set i (UInt8.ofNat (n % 256))).set (i + 1) (UInt8.ofNat (n / 256))

def qdcountAt : Nat := 4
def ancountAt : Nat := 6

/-- sizeof(HEADER), which is HFIXEDSZ. -/
def headerSize : Nat := 12

def qFixedSz : Nat := 4

def typeA : Nat := 1

def getShort (buf : List UInt8) (i : Nat) : Option Nat := do
  let high ← buf[i]?
  let low ← buf[i + 1]?
  some (256 * high.toNat + low.toNat)

def getLong (buf : List UInt8) (i : Nat) : Option Nat := do
  let high ← getShort buf i
  let low ← getShort buf (i + 2)
  some (65536 * high + low)

/-- The address with the given bytes in memory, on a host with little-endian words. -/
def addrOf (bytes : List UInt8) : InAddr := BitVec.ofNat 32 (bytes.foldr (fun b n => b.toNat + 256 * n) 0)

def bytesOf (a : InAddr) : List UInt8 := (List.range 4).map fun i => UInt8.ofNat (a.toNat / 256 ^ i)

/-- memcpy of n bytes from cp into addrs[i]; the other bytes of that address stay. -/
def copyRdata (buf : List UInt8) (cp n : Nat) (addrs : List InAddr) (i : Nat) : Option (List InAddr) := do
  let old ← addrs[i]?
  if cp + n ≤ buf.length then some (addrs.set i (addrOf ((buf.drop cp).take n ++ (bytesOf old).drop n))) else none

/-- The loop over the questions. The result -1 of dn_skipname is added like a length. -/
def parseQuestions (lib : NameLib) : Nat → List UInt8 → Nat → List UInt8 × Nat
  | 0, buf, cp => (buf, cp)
  | q + 1, buf, cp =>
    let buf := setHostShort buf qdcountAt q
    match lib.dnSkipname buf cp with
    | some n => parseQuestions lib q buf (cp + n + qFixedSz)
    | none => parseQuestions lib q buf (cp + qFixedSz - 1)

/-- _stx_dns_ttl, which is assigned for an address; it is an int. -/
def timeToLive (buf : List UInt8) (type cp : Nat) (ttl : Int) : Option Int :=
  if type = typeA then (getLong buf cp).map fun n => (BitVec.ofNat 32 n).toInt else some ttl

/-- What parse_answer leaves: its result, true for 0, with *num_addrs, the addresses and
_stx_dns_ttl. -/
structure Parsed where
  ok : Bool
  numAddrs : Nat
  addrs : List InAddr
  ttl : Int
deriving DecidableEq, Repr

/-- The loop over the answers, where room is *num_addrs. -/
def parseRecords (lib : NameLib) (room : Nat) : Nat → List UInt8 → Nat → Nat → List InAddr → Int → Option Parsed
  | 0, _, _, i, addrs, ttl => some ⟨true, i, addrs, ttl⟩
  | k + 1, buf, cp, i, addrs, ttl =>
    if cp < buf.length ∧ i < room then
      let buf := setHostShort buf ancountAt k
      match lib.dnExpand buf cp with
      | none => some ⟨false, room, addrs, ttl⟩
      | some n =>
        if buf.length ≤ cp + n + 10 then some ⟨false, room, addrs, ttl⟩
        else do
          let type ← getShort buf (cp + n)
          let ttl ← timeToLive buf type (cp + n + 4) ttl
          let size ← getShort buf (cp + n + 8)
          if type = typeA then
            if 4 < size ∨ buf.length < cp + n + 10 + size then some ⟨false, room, addrs, ttl⟩
            else do
              let addrs ← copyRdata buf (cp + n + 10) size addrs i
              parseRecords lib room k buf (cp + n + 10 + size) (i + 1) addrs ttl
          else parseRecords lib room k buf (cp + n + 10 + size) i addrs ttl
    else some ⟨true, i, addrs, ttl⟩

def parseAnswer (lib : NameLib) (buf : List UInt8) (addrs : List InAddr) (numAddrs : Nat) : Option Parsed := do
  let qdcount ← hostShort buf qdcountAt
  let (buf, cp) := parseQuestions lib qdcount buf headerSize
  let ancount ← hostShort buf ancountAt
  parseRecords lib numAddrs ancount buf cp 0 addrs (-1)

end StateThreads.Dns
