import Hydracore.Dns.Rule

/-!
The cache of the DNS client: what `finishExchange` hands out and stores of a response, what `loadResponse` makes of an
entry later, and the names of entries in the cache file. Times are in nanoseconds.
-/

namespace Hydracore.Dns.Client

open Rules (Addr)

structure SVCBKeyValue where
  key : UInt16
  value : List UInt8

inductive RData
  | soa (minttl : UInt32) (rdata : List UInt8)
  | https (priority : UInt16) (target : String) (values : List SVCBKeyValue)
  | other (rdata : List UInt8)

structure RR where
  name : String
  rrtype : UInt16
  rrclass : UInt16
  ttl : UInt32
  data : RData

/-- `flags` are the bits of the header that no function of the client reads. -/
structure Msg where
  id : UInt16
  flags : UInt16
  rcode : ℕ
  question : List Question
  answer : List RR
  ns : List RR
  extra : List RR

def typeOPT : UInt16 := 41
def typeHTTPS : UInt16 := 65
def svcbIPv4Hint : UInt16 := 4
def svcbIPv6Hint : UInt16 := 6
def rcodeNameError : ℕ := 3

def Msg.mapRecords (f : RR → RR) (m : Msg) : Msg :=
  { m with answer := m.answer.map f, ns := m.ns.map f, extra := m.extra.map f }

def Msg.timed (m : Msg) : List RR := (m.answer ++ m.ns ++ m.extra).filter (·.rrtype ≠ typeOPT)

def RR.negativeTTL (record : RR) : Option UInt32 :=
  match record.data with
  | .soa minttl _ => some (if record.ttl < minttl then record.ttl else minttl)
  | _ => none

def extractNegativeTTL (response : Msg) : Option UInt32 := response.ns.findSome? RR.negativeTTL

def computeTimeToLive (response : Msg) : UInt32 :=
  match if response.answer = [] then extractNegativeTTL response else none with
  | some soaTTL => soaTTL
  | none => response.timed.foldl (fun timeToLive record =>
      if timeToLive = 0 ∨ 0 < record.ttl ∧ record.ttl < timeToLive then record.ttl else timeToLive) 0

def RR.setTTL (timeToLive : UInt32) (record : RR) : RR :=
  if record.rrtype = typeOPT then record else { record with ttl := timeToLive }

def normalizeTTL (response : Msg) (timeToLive : UInt32) : Msg := response.mapRecords (RR.setTTL timeToLive)

def RR.filterHints (hint : UInt16) (record : RR) : RR :=
  match record.data with
  | .https priority target values => { record with data := .https priority target (values.filter (·.key ≠ hint)) }
  | _ => record

/-- The answer section that `applyResponseOptions` leaves. -/
def filterAnswer (question : Question) (strategy : DomainStrategy) (answer : List RR) : List RR :=
  if question.qtype ≠ typeHTTPS then answer
  else match strategy with
    | .ipv4Only => answer.map (RR.filterHints svcbIPv6Hint)
    | .ipv6Only => answer.map (RR.filterHints svcbIPv4Hint)
    | _ => answer

def applyResponseOptions (question : Question) (response : Msg) (options : DNSQueryOptions) : Msg × UInt32 :=
  let response := { response with answer := filterAnswer question options.strategy response.answer }
  let timeToLive := options.rewriteTTL.getD (computeTimeToLive response)
  (normalizeTTL response timeToLive, timeToLive)

/-- What the client calls of the package `dns`: `newOPT` is the record that `SetEdns0` appends for the size and the `Do`
bit of another, and `ρ` is what messages are packed into. -/
structure Package (ρ : Type) where
  isEdns0 : List RR → Option RR
  version : RR → UInt32
  newOPT : RR → RR
  pack : Msg → ρ
  unpack : ρ → Option Msg
  isEdns0_eq : ∀ extra, isEdns0 extra = extra.reverse.find? (·.rrtype = typeOPT)
  newOPT_rrtype : ∀ opt, (newOPT opt).rrtype = typeOPT
  newOPT_version : ∀ opt, version (newOPT opt) = 0
  unpack_pack : ∀ m, unpack (pack m) = some m

variable {ρ : Type} (dns : Package ρ)

def stripsEdns (request response : Msg) : Bool :=
  (dns.isEdns0 response.extra).any fun opt =>
    (dns.isEdns0 request.extra).all fun requestOpt => dns.version requestOpt < dns.version opt

def stripEdns (request response : Msg) : Msg :=
  if stripsEdns dns request response then
    { response with extra := response.extra.filter (·.rrtype ≠ typeOPT) ++
      ((dns.isEdns0 request.extra).bind fun _ => (dns.isEdns0 response.extra).map dns.newOPT).toList }
  else response

structure Operation where
  message : Msg
  question : Question
  options : DNSQueryOptions
  responseChecker : Option (Msg → Bool)
  disableCache : Bool

def cacheable (response : Msg) : Bool := response.rcode = Rules.rcodeSuccess ∨ response.rcode = rcodeNameError

def Operation.rejects (o : Operation) (response : Msg) : Bool :=
  o.responseChecker.any fun responseChecker => !cacheable response || !responseChecker response

def errResponseRejected : String := "response rejected"

def Operation.finishExchange (o : Operation) (response : Msg) : Except String Msg × Option (Msg × UInt32) :=
  if o.rejects response then (.error errResponseRejected, none)
  else
    let applied := applyResponseOptions o.question response o.options
    (.ok (stripEdns dns o.message { applied.1 with id := o.message.id }),
      if o.disableCache || !cacheable response then none else some applied)

def second : ℕ := 1000000000

structure Entry where
  message : Msg
  expireAt : ℕ

/-- `storeCache` at `now`; an entry saved to the cache file is packed and keeps whole seconds. -/
def storeCache (now : ℕ) (saved : Bool) (response : Msg × UInt32) : Option Entry :=
  let expireAt := now + response.2.toNat * second
  if response.2 = 0 then none
  else if saved then (dns.unpack (dns.pack response.1)).map fun message => ⟨message, expireAt / second * second⟩
  else some ⟨response.1, expireAt⟩

/-- `seconds` is `int(d.Seconds())`: a rounding that leaves whole seconds alone. -/
structure Settings where
  disableExpire : Bool
  optimisticTimeout : ℕ
  seconds : ℕ → ℕ
  seconds_le : ∀ d n, d ≤ n * second → seconds d ≤ n

/-- `loadResponse` of an entry, with whether it is stale. -/
def Entry.load (settings : Settings) (now : ℕ) (e : Entry) : Option (Msg × Bool) :=
  if settings.disableExpire then some (e.message, false)
  else if e.expireAt < now then
    if 0 < settings.optimisticTimeout ∧ now < e.expireAt + settings.optimisticTimeout then
      some (normalizeTTL e.message 1, true)
    else none
  else some (normalizeTTL e.message (settings.seconds (e.expireAt - now)).toUInt32, false)

/-- The response `beginExchange` returns from an entry. -/
def Operation.cacheHit (o : Operation) (settings : Settings) (now : ℕ) (e : Entry) : Option Msg :=
  (e.load settings now).bind fun (response, isStale) =>
    if isStale && o.options.disableOptimisticCache then none else some { response with id := o.message.id }

/-- `netip.Prefix`: without bits it is not valid, but it may keep an address. -/
structure Subnet where
  addr : Option Addr
  bits : Option ℕ
deriving DecidableEq

structure CacheKey where
  name : String
  qtype : UInt16
  qclass : UInt16
  transportTag : String
  clientSubnet : Subnet
  environment : UInt64
deriving DecidableEq

/-- `Prefix.String` of a valid prefix and `strconv.FormatUint` to base 36. -/
structure Texts where
  subnet : Option Addr → ℕ → String
  environment : UInt64 → String
  subnet_injective : ∀ a b a' b', subnet a b = subnet a' b' → a = a' ∧ b = b'
  subnet_plain : ∀ a b, '\x01' ∉ (subnet a b).toList
  environment_injective : Function.Injective environment

def CacheKey.persistentName (texts : Texts) (k : CacheKey) : String :=
  k.transportTag ++ (k.clientSubnet.bits.elim "" fun bits => "\x00" ++ texts.subnet k.clientSubnet.addr bits) ++
    if k.environment ≠ 0 then "\x01" ++ texts.environment k.environment else ""

/-- The keys of `SaveDNSCacheAsync` and `LoadDNSCache`. -/
def CacheKey.saveKey (texts : Texts) (k : CacheKey) : String × String × UInt16 :=
  (k.persistentName texts, k.name, k.qtype)

abbrev Store := String × String × UInt16 → Option Entry

structure Save where
  key : CacheKey
  now : ℕ
  saved : Bool
  response : Msg × UInt32

def Store.save (texts : Texts) (s : Store) (a : Save) : Store :=
  match storeCache dns a.now a.saved a.response with
  | none => s
  | some e => Function.update s (a.key.saveKey texts) (some e)

def Store.loadPersistentResponse (texts : Texts) (settings : Settings) (now : ℕ) (s : Store) (k : CacheKey) :
    Option (Msg × Bool) :=
  (s (k.saveKey texts)).bind (Entry.load settings now)

end Hydracore.Dns.Client
