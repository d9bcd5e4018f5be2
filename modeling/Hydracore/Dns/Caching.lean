import Hydracore.Dns.Client
import Mathlib.Data.Nat.Pairing

namespace Hydracore.Dns.Client

open List RR Msg Function Store

variable {ρ : Type} {dns : Package ρ} {response : Msg} {timeToLive : UInt32} {o o' : Operation} {settings : Settings}
  {received now : ℕ} {saved : Bool}

def Msg.ttls (m : Msg) : List UInt32 := m.timed.map ttl

theorem RR.setTTL_rrtype (record : RR) : (record.setTTL timeToLive).rrtype = record.rrtype := by
  unfold setTTL
  split_ifs <;> rfl

theorem ttls_normalizeTTL : (normalizeTTL response timeToLive).ttls = response.ttls.map fun _ => timeToLive := by
  have htype : (fun record : RR => decide (record.rrtype ≠ typeOPT)) ∘ setTTL timeToLive =
      fun record => decide (record.rrtype ≠ typeOPT) := funext fun record => by simp [setTTL_rrtype]
  simp only [ttls, timed, normalizeTTL, mapRecords, ← map_append, filter_map, htype, map_map]
  apply map_congr_left
  intro record hrecord
  have hopt : record.rrtype ≠ typeOPT := by simpa using (mem_filter.mp hrecord).2
  simp [setTTL, hopt]

theorem exists_filterAnswer (question : Question) (strategy : DomainStrategy) : ∃ f : RR → RR,
    (∀ record, (f record).rrtype = record.rrtype ∧ (f record).ttl = record.ttl) ∧
      ∀ answer, filterAnswer question strategy answer = answer.map f := by
  have hfilter (hint : UInt16) (record : RR) :
      (record.filterHints hint).rrtype = record.rrtype ∧ (record.filterHints hint).ttl = record.ttl := by
    unfold filterHints
    split <;> exact ⟨rfl, rfl⟩
  by_cases hhttps : question.qtype = typeHTTPS
  · cases strategy with
    | ipv4Only => exact ⟨_, hfilter svcbIPv6Hint, fun _ => by simp [filterAnswer, hhttps]⟩
    | ipv6Only => exact ⟨_, hfilter svcbIPv4Hint, fun _ => by simp [filterAnswer, hhttps]⟩
    | asIS | preferIPv4 | preferIPv6 => exact ⟨id, fun _ => ⟨rfl, rfl⟩, fun _ => by simp [filterAnswer]⟩
  · exact ⟨id, fun _ => ⟨rfl, rfl⟩, fun _ => by simp [filterAnswer, hhttps]⟩

theorem ttls_filterAnswer (question : Question) (strategy : DomainStrategy) :
    ttls { response with answer := filterAnswer question strategy response.answer } = response.ttls := by
  obtain ⟨f, hf, heq⟩ := exists_filterAnswer question strategy
  have htype : (fun record : RR => decide (record.rrtype ≠ typeOPT)) ∘ f =
      fun record => decide (record.rrtype ≠ typeOPT) := funext fun record => by simp [hf]
  have httl : ttl ∘ f = ttl := funext fun record => (hf record).2
  simp only [ttls, timed, heq, filter_append, map_append, filter_map, htype, map_map, httl]

def minTTL (timeToLive ttl : UInt32) : UInt32 := if timeToLive = 0 ∨ 0 < ttl ∧ ttl < timeToLive then ttl else timeToLive

theorem computeTimeToLive_eq (response : Msg) : computeTimeToLive response =
    (if response.answer = [] then extractNegativeTTL response else none).getD (response.ttls.foldl minTTL 0) := by
  unfold computeTimeToLive
  split <;> simp_all [ttls, foldl_map, minTTL]

theorem computeTimeToLive_filterAnswer (question : Question) (strategy : DomainStrategy) :
    computeTimeToLive { response with answer := filterAnswer question strategy response.answer } =
      computeTimeToLive response := by
  obtain ⟨f, -, heq⟩ := exists_filterAnswer question strategy
  rw [computeTimeToLive_eq, computeTimeToLive_eq, ttls_filterAnswer, heq]
  simp [extractNegativeTTL]

theorem minTTL_spec (first ttl : UInt32) : (0 < ttl → 0 < minTTL first ttl ∧ minTTL first ttl ≤ ttl) ∧
    (0 < first → 0 < minTTL first ttl ∧ minTTL first ttl ≤ first) ∧ (minTTL first ttl = 0 → first = 0 ∧ ttl = 0) := by
  unfold minTTL
  grind

theorem foldl_minTTL (ttls : List UInt32) (first : UInt32) :
    (∀ ttl ∈ ttls, 0 < ttl → ttls.foldl minTTL first ≤ ttl) ∧ (0 < first → ttls.foldl minTTL first ≤ first) ∧
      (ttls.foldl minTTL first = 0 → first = 0 ∧ ∀ ttl ∈ ttls, ttl = 0) := by
  induction ttls generalizing first with
  | nil => simp
  | cons ttl ttls ih =>
    obtain ⟨hle, hfirst, hzero⟩ := ih (minTTL first ttl)
    obtain ⟨hmin, hkept, hnone⟩ := minTTL_spec first ttl
    refine ⟨?_, fun hpos => UInt32.le_trans (hfirst (hkept hpos).1) (hkept hpos).2, fun hm => ?_⟩
    · rintro other (_ | ⟨_, hother⟩) hpos
      · exact UInt32.le_trans (hfirst (hmin hpos).1) (hmin hpos).2
      · exact hle other hother hpos
    · obtain ⟨hm, hall⟩ := hzero hm
      exact ⟨(hnone hm).1, forall_mem_cons.mpr ⟨(hnone hm).2, hall⟩⟩

/-- No record has the time to live zero while another has not; in a negative answer none has less than what the first
`SOA` record gives. -/
def Even (response : Msg) : Prop :=
  match if response.answer = [] then extractNegativeTTL response else none with
  | some soaTTL => ∀ ttl ∈ response.ttls, soaTTL ≤ ttl
  | none => (∀ ttl ∈ response.ttls, ttl = 0) ∨ ∀ ttl ∈ response.ttls, 0 < ttl

theorem even_iff : Even response ↔ ∀ ttl ∈ response.ttls, computeTimeToLive response ≤ ttl := by
  rw [Even, computeTimeToLive_eq]
  split <;> rename_i hsoa <;> simp only [hsoa, Option.getD_some, Option.getD_none]
  obtain ⟨hle, -, hzero⟩ := foldl_minTTL response.ttls 0
  constructor
  · rintro (hall | hall) ttl httl
    · have hnone : response.ttls.foldl minTTL 0 = 0 :=
        foldlRecOn (motive := (· = 0)) _ _ rfl fun _ hb a ha => by rw [hb, hall a ha]; rfl
      rw [hnone]
      exact UInt32.zero_le
    · exact hle ttl httl (hall ttl httl)
  · intro h
    by_cases hm : response.ttls.foldl minTTL 0 = 0
    · exact .inl (hzero hm).2
    · exact .inr fun ttl httl => UInt32.lt_of_lt_of_le (UInt32.pos_iff_ne_zero.mpr hm) (h ttl httl)

theorem ttls_stripEdns (request : Msg) : (stripEdns dns request response).ttls = response.ttls := by
  unfold stripEdns
  split_ifs
  · have hnew : ((dns.isEdns0 request.extra).bind fun _ => (dns.isEdns0 response.extra).map dns.newOPT).toList.filter
        (·.rrtype ≠ typeOPT) = [] := by
      cases dns.isEdns0 request.extra <;> cases dns.isEdns0 response.extra <;> simp [dns.newOPT_rrtype]
    simp only [ttls, timed, filter_append, filter_filter, Bool.and_self, hnew, append_nil]
  · rfl

theorem applyResponseOptions_spec (response : Msg) (question : Question) (options : DNSQueryOptions)
    (h : options.rewriteTTL = none) :
    (applyResponseOptions question response options).2 = computeTimeToLive response ∧
      (applyResponseOptions question response options).1.ttls = response.ttls.map fun _ => computeTimeToLive response := by
  simp only [applyResponseOptions, h, Option.getD_none, computeTimeToLive_filterAnswer, ttls_normalizeTTL,
    ttls_filterAnswer, and_self]

theorem forall₂_const {ttls : List UInt32} {P : UInt32 → UInt32 → Prop} :
    Forall₂ P (ttls.map fun _ => timeToLive) ttls ↔ ∀ ttl ∈ ttls, P timeToLive ttl := by
  rw [forall₂_map_left_iff, forall₂_same]

theorem finishExchange_ok {fresh : Msg} (h : (o.finishExchange dns response).1 = .ok fresh) : o.rejects response = false ∧
    fresh = stripEdns dns o.message { (applyResponseOptions o.question response o.options).1 with id := o.message.id } := by
  unfold Operation.finishExchange at h
  split at h
  · cases h
  · next hrejects => exact ⟨Bool.eq_false_iff.mpr hrejects, (Except.ok.inj h).symm⟩

variable {stored : Msg × UInt32}

theorem finishExchange_stored (h : (o.finishExchange dns response).2 = some stored) :
    stored = applyResponseOptions o.question response o.options := by
  unfold Operation.finishExchange at h
  split_ifs at h
  exact (Option.some.inj h).symm

variable {e : Entry}

theorem storeCache_spec (h : storeCache dns received saved stored = some e) :
    e.message = stored.1 ∧ e.expireAt ≤ received + stored.2.toNat * second := by
  unfold storeCache at h
  rw [dns.unpack_pack] at h
  split_ifs at h <;> cases h
  · exact ⟨rfl, Nat.div_mul_le_self _ _⟩
  · exact ⟨rfl, le_rfl⟩

/-- Without a rewritten time to live, with expiry and without optimistic caching: no record is handed out with more time
to live than upstream gave it, fresh or from the cache, and from the cache none after that time. -/
def Disciplined (dns : Package ρ) (response : Msg) : Prop :=
  ∀ o : Operation, o.options.rewriteTTL = none →
    (∀ fresh, (o.finishExchange dns response).1 = .ok fresh → Forall₂ (· ≤ ·) fresh.ttls response.ttls) ∧
    ∀ stored, (o.finishExchange dns response).2 = some stored →
      ∀ received saved e, storeCache dns received saved stored = some e →
        ∀ (settings : Settings) (o' : Operation) (now : ℕ) (hit : Msg),
          settings.disableExpire = false → settings.optimisticTimeout = 0 → received ≤ now →
          o'.cacheHit settings now e = some hit →
            Forall₂ (fun ttl upstream => ttl ≤ upstream ∧ now ≤ received + upstream.toNat * second)
              hit.ttls response.ttls

theorem cacheHit_ttls {hit : Msg} (hexpire : settings.disableExpire = false)
    (hoptimistic : settings.optimisticTimeout = 0) (hhit : o.cacheHit settings now e = some hit) :
    now ≤ e.expireAt ∧ hit.ttls = e.message.ttls.map fun _ => (settings.seconds (e.expireAt - now)).toUInt32 := by
  obtain ⟨⟨loaded, isStale⟩, hload, hhit⟩ := Option.bind_eq_some_iff.mp hhit
  simp only [Entry.load, hexpire, hoptimistic, Bool.false_eq_true, if_false, lt_irrefl, false_and] at hload
  split_ifs at hload with hlate
  cases hload
  cases hhit
  exact ⟨not_lt.mp hlate, ttls_normalizeTTL⟩

def plainOptions : DNSQueryOptions := ⟨.asIS, .asIS, false, false, none, 0, none, false⟩

theorem disciplined_iff_even (dns : Package ρ) (response : Msg) : Disciplined dns response ↔ Even response := by
  rw [even_iff]
  constructor
  · intro h
    obtain ⟨-, httls⟩ := applyResponseOptions_spec response ⟨"", 0, 0⟩ plainOptions rfl
    have hfresh := (h ⟨response, ⟨"", 0, 0⟩, plainOptions, none, true⟩ rfl).1 _ rfl
    rw [ttls_stripEdns] at hfresh
    exact forall₂_const.mp (httls ▸ hfresh)
  · intro h o hrewrite
    obtain ⟨httl, httls⟩ := applyResponseOptions_spec response o.question o.options hrewrite
    refine ⟨fun fresh hfresh => ?_, fun stored hstored received saved e he settings o' now hit hexpire hoptimistic hnow
      hhit => ?_⟩
    · obtain ⟨-, rfl⟩ := finishExchange_ok hfresh
      rw [ttls_stripEdns]
      exact httls.symm ▸ forall₂_const.mpr h
    · obtain rfl := finishExchange_stored hstored
      obtain ⟨hmessage, hexpireAt⟩ := storeCache_spec he
      obtain ⟨hlive, hhits⟩ := cacheHit_ttls hexpire hoptimistic hhit
      rw [hhits, hmessage, httls, map_map]
      rw [httl] at hexpireAt
      refine forall₂_const.mpr fun ttl hmem => ?_
      have hle : (computeTimeToLive response).toNat ≤ ttl.toNat := UInt32.le_iff_toNat_le.mp (h ttl hmem)
      have hseconds := settings.seconds_le (e.expireAt - now) (computeTimeToLive response).toNat (by omega)
      have hmul := Nat.mul_le_mul_right second hle
      refine ⟨UInt32.le_iff_toNat_le.mpr ?_, by omega⟩
      exact ((UInt32.toNat_ofNat' ..).trans_le (Nat.mod_le _ _)).trans (hseconds.trans hle)

def miekg : Package Msg where
  isEdns0 extra := extra.reverse.find? (·.rrtype = typeOPT)
  version opt := opt.ttl >>> 16 % 256
  newOPT opt := ⟨".", typeOPT, opt.rrclass, opt.ttl &&& 0x8000, .other []⟩
  pack := id
  unpack := some
  isEdns0_eq _ := rfl
  newOPT_rrtype _ := rfl
  newOPT_version opt := by
    have hle : opt.ttl.toNat &&& 32768 ≤ 32768 := Nat.and_le_right
    apply UInt32.toNat_inj.mp
    simp only [UInt32.toNat_mod, UInt32.toNat_shiftRight, UInt32.toNat_and]
    simp only [UInt32.reduceToNat, Nat.shiftRight_eq_div_pow, Nat.reduceMod, Nat.reducePow]
    omega
  unpack_pack _ := rfl

def mixed : Msg := ⟨7, 0, 0, [], [⟨"a.", 1, 1, 0, .other []⟩, ⟨"a.", 1, 1, 7200, .other []⟩], [], []⟩

theorem zero_ttl_raised : ¬Disciplined miekg mixed := by
  intro h
  have hfresh : Forall₂ (· ≤ ·) [(7200 : UInt32), 7200] [0, 7200] :=
    (h ⟨mixed, ⟨"a.", 1, 1⟩, plainOptions, none, false⟩ rfl).1 _ rfl
  exact absurd (forall₂_cons.mp hfresh).1 (by decide)

def Msg.apart (m : Msg) : Msg := { normalizeTTL m 0 with id := 0 }

def SameHints (question : Question) (strategy strategy' : DomainStrategy) (response : Msg) : Prop :=
  (filterAnswer question strategy response.answer).map (setTTL 0) =
    (filterAnswer question strategy' response.answer).map (setTTL 0)

theorem setTTL_setTTL (record : RR) : (record.setTTL timeToLive).setTTL 0 = record.setTTL 0 := by
  by_cases h : record.rrtype = typeOPT <;> simp [setTTL, h]

theorem map_setTTL (records : List RR) : (records.map (setTTL timeToLive)).map (setTTL 0) =
    records.map (setTTL 0) := by
  rw [map_map]
  exact map_congr_left fun record _ => setTTL_setTTL record

def lastOPT (records : List RR) : Option RR := records.reverse.find? (·.rrtype = typeOPT)

theorem isEdns0_eq_lastOPT (records : List RR) : dns.isEdns0 records = lastOPT records := dns.isEdns0_eq records

theorem lastOPT_setTTL (records : List RR) : lastOPT (records.map (setTTL timeToLive)) = lastOPT records := by
  have htype : (fun record : RR => decide (record.rrtype = typeOPT)) ∘ setTTL timeToLive =
      fun record => decide (record.rrtype = typeOPT) := funext fun record => by simp [setTTL_rrtype]
  simp only [lastOPT, ← map_reverse, find?_map, htype]
  cases hfind : records.reverse.find? fun record => decide (record.rrtype = typeOPT) with
  | none => rfl
  | some opt =>
    have hopt : opt.rrtype = typeOPT := by simpa using find?_some hfind
    simp [setTTL, hopt]

theorem lastOPT_strip (records : List RR) {opt : Option RR} (h : ∀ record ∈ opt, record.rrtype = typeOPT) :
    lastOPT (records.filter (·.rrtype ≠ typeOPT) ++ opt.toList) = opt := by
  have hnone : lastOPT (records.filter (·.rrtype ≠ typeOPT)) = none := by
    simp [lastOPT, find?_eq_none]
  cases opt with
  | none => simpa using hnone
  | some record => simp [lastOPT, h record rfl]

/-- The response as a caller with `strategy` sees it before the `OPT` records are looked at. -/
def Msg.seen (question : Question) (strategy : DomainStrategy) (response : Msg) : Msg :=
  { response with answer := filterAnswer question strategy response.answer }

theorem apart_normalizeTTL (m : Msg) (id : UInt16) : apart { normalizeTTL m timeToLive with id := id } = m.apart := by
  simp only [apart, normalizeTTL, mapRecords, map_setTTL]

theorem apart_seen_iff {question : Question} {strategy strategy' : DomainStrategy} :
    (response.seen question strategy).apart = (response.seen question strategy').apart ↔
      SameHints question strategy strategy' response := by
  simp [apart, seen, normalizeTTL, mapRecords, SameHints]

theorem cacheHit_apart {hit : Msg}
    (hstored : (o'.finishExchange dns response).2 = some stored) (he : storeCache dns received saved stored = some e)
    (hhit : o.cacheHit settings now e = some hit) : hit.apart = (response.seen o'.question o'.options.strategy).apart := by
  obtain rfl := finishExchange_stored hstored
  obtain ⟨⟨loaded, isStale⟩, hload, hhit⟩ := Option.bind_eq_some_iff.mp hhit
  obtain ⟨-, ⟨⟩⟩ := Option.ite_none_left_eq_some.mp hhit
  have hmessage : ∀ id, apart { e.message with id := id } = (response.seen o'.question o'.options.strategy).apart := by
    rw [(storeCache_spec he).1]
    exact fun id => apart_normalizeTTL _ id
  unfold Entry.load at hload
  split_ifs at hload <;> cases hload
  · exact hmessage _
  · exact (apart_normalizeTTL _ _).trans (hmessage e.message.id)
  · exact (apart_normalizeTTL _ _).trans (hmessage e.message.id)

theorem stripsEdns_extra {request m : Msg} (h : m.extra = response.extra.map (setTTL timeToLive)) :
    stripsEdns dns request m = stripsEdns dns request response := by
  simp only [stripsEdns, h, isEdns0_eq_lastOPT, lastOPT_setTTL]

theorem apart_stripEdns_ne {request m m' : Msg} (h : stripsEdns dns request m = true)
    (hextra : m.extra = m'.extra.map (setTTL timeToLive)) : (stripEdns dns request m).apart ≠ m'.apart := by
  intro heq
  obtain ⟨opt, hopt, hversion⟩ := (Option.any_eq_true _ _).mp h
  rw [isEdns0_eq_lastOPT] at hopt
  have hsame : lastOPT m'.extra = some opt := (lastOPT_setTTL _).symm.trans ((congrArg lastOPT hextra).symm.trans hopt)
  have hlast := congrArg (fun x : Msg => lastOPT x.extra) heq
  simp only [apart, normalizeTTL, mapRecords, lastOPT_setTTL, stripEdns, h, if_true, hsame] at hlast
  rw [lastOPT_strip, isEdns0_eq_lastOPT m.extra, hopt] at hlast
  · obtain ⟨requestOpt, hrequest, hnew⟩ := Option.bind_eq_some_iff.mp hlast
    simp only [hrequest, Option.all_some, decide_eq_true_eq] at hversion
    rw [← Option.some.inj hnew, dns.newOPT_version] at hversion
    exact absurd hversion (UInt32.not_lt.mpr UInt32.zero_le)
  · intro record hrecord
    obtain ⟨_, -, hrecord⟩ := Option.bind_eq_some_iff.mp hrecord
    obtain ⟨_, -, rfl⟩ := Option.map_eq_some_iff.mp hrecord
    exact dns.newOPT_rrtype _

theorem cache_transparent_iff {stored : Msg × UInt32} {e : Entry} {hit : Msg}
    (hstored : (o'.finishExchange dns response).2 = some stored) (he : storeCache dns received saved stored = some e)
    (hquestion : o'.question = o.question) (hhit : o.cacheHit settings now e = some hit) :
    (∃ fresh, (o.finishExchange dns response).1 = .ok fresh ∧ fresh.apart = hit.apart) ↔
      o.rejects response = false ∧ stripsEdns dns o.message response = false ∧
        SameHints o.question o.options.strategy o'.options.strategy response := by
  have hstrips : stripsEdns dns o.message { (applyResponseOptions o.question response o.options).1 with id := o.message.id } =
      stripsEdns dns o.message response := stripsEdns_extra rfl
  rw [cacheHit_apart hstored he hhit, hquestion]
  constructor
  · rintro ⟨fresh, hfresh, heq⟩
    obtain ⟨hrejects, rfl⟩ := finishExchange_ok hfresh
    have hkeeps : stripsEdns dns o.message response = false := by
      by_contra hlost
      exact absurd heq (apart_stripEdns_ne (hstrips.trans (Bool.of_not_eq_false hlost)) rfl)
    rw [stripEdns, hstrips, hkeeps, if_neg Bool.false_ne_true] at heq
    exact ⟨hrejects, hkeeps, apart_seen_iff.mp ((apart_normalizeTTL _ _).symm.trans heq)⟩
  · rintro ⟨hrejects, hkeeps, hsame⟩
    refine ⟨_, by rw [Operation.finishExchange, hrejects]; rfl, ?_⟩
    rw [stripEdns, hstrips, hkeeps, if_neg Bool.false_ne_true]
    exact (apart_normalizeTTL _ _).trans (apart_seen_iff.mpr hsame)

def plainOPT : RR := ⟨".", typeOPT, 1232, 0, .other []⟩

def withOPT : Msg := ⟨7, 0, 0, [⟨"a.", 1, 1⟩], [⟨"a.", 1, 1, 60, .other [1]⟩], [], [plainOPT]⟩

def asking (extra : List RR) : Operation :=
  ⟨⟨9, 0, 0, [⟨"a.", 1, 1⟩], [], [], extra⟩, ⟨"a.", 1, 1⟩, plainOptions, none, false⟩

def wholeSeconds : Settings := ⟨false, 0, (· / second), fun _ n h => Nat.div_le_of_le_mul (h.trans_eq (n.mul_comm second))⟩

theorem cached_opt_kept : ∃ stored e hit fresh, ((asking [plainOPT]).finishExchange miekg withOPT).2 = some stored ∧
    storeCache miekg 0 false stored = some e ∧ (asking []).cacheHit wholeSeconds 0 e = some hit ∧
      ((asking []).finishExchange miekg withOPT).1 = .ok fresh ∧ hit.extra = [plainOPT] ∧ fresh.extra = [] :=
  ⟨_, _, _, _, rfl, rfl, rfl, rfl, rfl, rfl⟩

theorem cached_opt_asked : ∃ stored e hit, ((asking [plainOPT]).finishExchange miekg withOPT).2 = some stored ∧
    storeCache miekg 0 true stored = some e ∧ (asking [plainOPT]).cacheHit wholeSeconds second e = some hit ∧
      ∃ fresh, ((asking [plainOPT]).finishExchange miekg withOPT).1 = .ok fresh ∧ fresh.apart = hit.apart := by
  refine ⟨_, _, _, rfl, rfl, rfl, ?_⟩
  exact (cache_transparent_iff (show ((asking [plainOPT]).finishExchange miekg withOPT).2 = some _ from rfl)
    (show storeCache miekg 0 true _ = some _ from rfl) rfl
    (show (asking [plainOPT]).cacheHit wholeSeconds second _ = some _ from rfl)).mpr ⟨rfl, rfl, rfl⟩

variable {texts : Texts} {k k' : CacheKey} {s s' : Subnet}

def Subnet.valid (s : Subnet) : Option (Option Rules.Addr × ℕ) := s.bits.map fun bits => (s.addr, bits)

def subnetPart (texts : Texts) (s : Subnet) : List Char :=
  s.bits.elim [] fun bits => '\x00' :: (texts.subnet s.addr bits).toList

def environmentPart (texts : Texts) (environment : UInt64) : List Char :=
  if environment ≠ 0 then '\x01' :: (texts.environment environment).toList else []

def CacheKey.parts (texts : Texts) (k : CacheKey) : List Char :=
  subnetPart texts k.clientSubnet ++ environmentPart texts k.environment

/-- The keys agree but for the class and the address of a subnet that is not valid. -/
def CacheKey.Alike (k k' : CacheKey) : Prop :=
  k.transportTag = k'.transportTag ∧ k.clientSubnet.valid = k'.clientSubnet.valid ∧ k.environment = k'.environment

/-- The tag of `k'` is that of `k` with the beginning of what follows it in the name of `k`. -/
def CacheKey.Spelled (texts : Texts) (k k' : CacheKey) : Prop :=
  ∃ c rest, k'.transportTag.toList = k.transportTag.toList ++ c :: rest ∧ k.parts texts = c :: rest ++ k'.parts texts

theorem toList_persistentName (k : CacheKey) :
    (k.persistentName texts).toList = k.transportTag.toList ++ k.parts texts := by
  simp only [CacheKey.persistentName, CacheKey.parts, subnetPart, environmentPart, String.toList_append, append_assoc]
  cases k.clientSubnet.bits <;> split_ifs <;> simp

theorem subnetPart_inj : subnetPart texts s = subnetPart texts s' ↔ s.valid = s'.valid := by
  obtain ⟨addr, _ | bits⟩ := s <;> obtain ⟨addr', _ | bits'⟩ := s' <;> simp only [subnetPart, Subnet.valid]
  · simp
  · simp
  · simp
  · constructor
    · intro h
      obtain ⟨rfl, rfl⟩ := texts.subnet_injective _ _ _ _ (String.toList_inj.mp (cons_eq_cons.mp h).2)
      rfl
    · rintro ⟨⟩
      rfl

theorem environmentPart_injective (texts : Texts) : Injective (environmentPart texts) := by
  intro a b h
  unfold environmentPart at h
  split_ifs at h with ha hb hb
  · exact texts.environment_injective (String.toList_inj.mp (cons_eq_cons.mp h).2)
  · rw [not_ne_iff.mp ha, not_ne_iff.mp hb]

theorem takeWhile_parts (k : CacheKey) :
    (k.parts texts).takeWhile (· ≠ '\x01') = subnetPart texts k.clientSubnet := by
  have hplain : ∀ c ∈ subnetPart texts k.clientSubnet, decide (c ≠ '\x01') = true := by
    unfold subnetPart
    cases k.clientSubnet.bits with
    | none => simp
    | some bits =>
      rintro c (_ | ⟨_, hc⟩)
      · decide
      · exact decide_eq_true fun heq => texts.subnet_plain _ _ (heq ▸ hc)
  have hnone : (environmentPart texts k.environment).takeWhile (· ≠ '\x01') = [] := by
    unfold environmentPart
    split_ifs <;> simp
  rw [CacheKey.parts, takeWhile_append_of_pos hplain, hnone, append_nil]

theorem parts_inj : k.parts texts = k'.parts texts ↔
    k.clientSubnet.valid = k'.clientSubnet.valid ∧ k.environment = k'.environment := by
  constructor
  · intro h
    have hsubnet : subnetPart texts k.clientSubnet = subnetPart texts k'.clientSubnet := by
      rw [← takeWhile_parts, h, takeWhile_parts]
    refine ⟨subnetPart_inj.mp hsubnet, environmentPart_injective texts ?_⟩
    rw [CacheKey.parts, CacheKey.parts, hsubnet] at h
    exact append_cancel_left h
  · rintro ⟨hvalid, henvironment⟩
    rw [CacheKey.parts, CacheKey.parts, subnetPart_inj.mpr hvalid, henvironment]

theorem persistentName_inj : k.persistentName texts = k'.persistentName texts ↔
    k.Alike k' ∨ k.Spelled texts k' ∨ k'.Spelled texts k := by
  rw [← String.toList_inj, toList_persistentName, toList_persistentName, append_eq_append_iff]
  -- the tags agree, or one goes on where the other has ended
  constructor
  · rintro (⟨_ | ⟨c, rest⟩, htag, hparts⟩ | ⟨_ | ⟨c, rest⟩, htag, hparts⟩)
    · rw [append_nil] at htag
      exact .inl ⟨String.toList_inj.mp htag.symm, parts_inj.mp hparts⟩
    · exact .inr (.inl ⟨c, rest, htag, hparts⟩)
    · rw [append_nil] at htag
      exact .inl ⟨String.toList_inj.mp htag, parts_inj.mp hparts.symm⟩
    · exact .inr (.inr ⟨c, rest, htag, hparts⟩)
  · rintro (⟨htag, hparts⟩ | ⟨c, rest, htag, hparts⟩ | ⟨c, rest, htag, hparts⟩)
    · exact .inl ⟨[], by rw [htag, append_nil], parts_inj.mpr hparts⟩
    · exact .inl ⟨c :: rest, htag, hparts⟩
    · exact .inr ⟨c :: rest, htag, hparts⟩

/-- Storing a response for `k` changes nothing that is loaded for `k'`, whatever else has been stored. -/
def KeptApart (dns : Package ρ) (texts : Texts) (k k' : CacheKey) : Prop :=
  ∀ (s : Store) (a : Save) (settings : Settings) (now : ℕ), a.key = k →
    (s.save dns texts a).loadPersistentResponse texts settings now k' = s.loadPersistentResponse texts settings now k'

theorem keptApart_iff_ne : KeptApart dns texts k k' ↔ k.saveKey texts ≠ k'.saveKey texts := by
  constructor
  · intro h hsame
    have hload := h (fun _ => none) ⟨k, 0, false, (⟨0, 0, 0, [], [], [], []⟩, 1)⟩
      ⟨true, 0, fun _ => 0, fun _ _ _ => Nat.zero_le _⟩ 0 rfl
    simp [loadPersistentResponse, save, storeCache, hsame, Entry.load] at hload
  · rintro hne s a settings now rfl
    unfold loadPersistentResponse save
    cases storeCache dns a.now a.saved a.response with
    | none => rfl
    | some e => exact congrArg (Option.bind · _) (update_of_ne hne.symm _ _)

theorem keptApart_iff (dns : Package ρ) (texts : Texts) (k k' : CacheKey) : KeptApart dns texts k k' ↔
    k.name ≠ k'.name ∨ k.qtype ≠ k'.qtype ∨ ¬(k.Alike k' ∨ k.Spelled texts k' ∨ k'.Spelled texts k) := by
  rw [keptApart_iff_ne, ← persistentName_inj]
  simp only [CacheKey.saveKey, ne_eq, Prod.mk.injEq]
  tauto

def unary (n : ℕ) : String := String.ofList (replicate n '1')

theorem unary_injective : Injective unary := by
  intro m n h
  simpa using congrArg length (String.ofList_inj.mp h)

/-- Every address and every number of bits has its own number of strokes. -/
def strokes : Texts where
  subnet addr bits := unary (Nat.pair (addr.elim 0 fun
    | .v4 a => 2 * a.toNat + 1
    | .v6 a => 2 * a.toNat + 2) bits)
  environment e := unary e.toNat
  subnet_injective a b a' b' h := by
    obtain ⟨haddr, rfl⟩ := Nat.pair_eq_pair.mp (unary_injective h)
    refine ⟨?_, rfl⟩
    rcases a with _ | ⟨a | a⟩ <;> rcases a' with _ | ⟨a' | a'⟩ <;> simp_all [← BitVec.toNat_inj] <;> omega
  subnet_plain a b := by simp [unary]
  environment_injective a b h := UInt64.toNat_inj.mp (unary_injective h)

def query (qclass : UInt16) (subnet : Subnet) : CacheKey := ⟨"a.", 1, qclass, "local", subnet, 0⟩

theorem subnets_kept_apart :
    KeptApart miekg strokes (query 1 ⟨none, none⟩) (query 1 ⟨some (.v4 0xc0000200), some 24⟩) := by
  refine (keptApart_iff _ _ _ _).mpr (.inr (.inr ?_))
  rintro (⟨-, hvalid, -⟩ | ⟨c, rest, htag, -⟩ | ⟨c, rest, htag, -⟩)
  · cases hvalid
  · simp [query] at htag
  · simp [query] at htag

theorem chaos_answer_served : query 3 ⟨none, none⟩ ≠ query 1 ⟨none, none⟩ ∧
    (save miekg strokes (fun _ => none) ⟨query 3 ⟨none, none⟩, 0, false, (withOPT, 60)⟩).loadPersistentResponse strokes
      wholeSeconds 0 (query 1 ⟨none, none⟩) = some (normalizeTTL withOPT 60, false) := by
  refine ⟨by decide, ?_⟩
  simp [loadPersistentResponse, save, storeCache, CacheKey.saveKey, CacheKey.persistentName, query, Entry.load,
    wholeSeconds, second]

end Hydracore.Dns.Client
