import Hydracore.Cachefile.FakeIP

/-!
The allocation of FakeIP addresses over the memory storage. An invalid `netip.Addr` is `none`; what the source keeps for
both families is indexed by `isIPv6`.
-/

namespace Hydracore.Dns.FakeIP

open Systems Cachefile Function

def next : Address → Option Address
  | .v4 a => if a = .allOnes 32 then none else some (.v4 (a + 1))
  | .v6 a => if a = .allOnes 128 then none else some (.v6 (a + 1))

structure Prefix where
  addr : Address
  bits : ℕ
  bits_le : bits ≤ if addr.is4 then 32 else 128

namespace Prefix

def contains (p : Prefix) (address : Address) : Bool :=
  match p.addr, address with
  | .v4 a, .v4 b => a >>> (32 - p.bits) = b >>> (32 - p.bits)
  | .v6 a, .v6 b => a >>> (128 - p.bits) = b >>> (128 - p.bits)
  | _, _ => false

def broadcastAddress (p : Prefix) : Address :=
  match p.addr with
  | .v4 a => .v4 (a ||| BitVec.allOnes 32 >>> p.bits)
  | .v6 a => .v6 (a ||| BitVec.allOnes 128 >>> p.bits)

def nextAddress (p : Prefix) (nextAddress : Option Address) : Option Address :=
  if nextAddress = some p.broadcastAddress ∨ nextAddress.all (!p.contains ·) then (next p.addr).bind next
  else nextAddress

end Prefix

structure Ranges where
  range : Bool → Option Prefix
  family : ∀ isIPv6, ∀ p ∈ range isIPv6, p.addr.is4 = !isIPv6
  set : range false ≠ none ∨ range true ≠ none

structure Store where
  current : Bool → Option Address
  addressCache : Option Address → Option String
  domainCache : Bool × String → Option (Option Address)

namespace Store

def start (r : Ranges) : Store := ⟨fun isIPv6 => (r.range isIPv6).bind (next ·.addr), fun _ => none, fun _ => none⟩

def fakeIPStore (s : Store) (address : Option Address) (domain : String) : Store :=
  let isIPv6 := !address.any Address.is4
  let domainCache := match s.addressCache address with
    | some oldDomain => update s.domainCache (isIPv6, oldDomain) none
    | none => s.domainCache
  { s with
    addressCache := update s.addressCache address (some domain)
    domainCache := update domainCache (isIPv6, domain) (some address) }

def create (r : Ranges) (s : Store) (domain : String) (isIPv6 : Bool) : Store × Except String (Option Address) :=
  match s.domainCache (isIPv6, domain) with
  | some address => (s, .ok address)
  | none =>
    match r.range isIPv6, s.current isIPv6 with
    | some p, some current =>
      let address := p.nextAddress (next current)
      ({ s with current := update s.current isIPv6 address }.fakeIPStore address domain, .ok address)
    | _, _ =>
      (s, .error (if isIPv6 then "missing IPv6 fakeip address range" else "missing IPv4 fakeip address range"))

def lookup (s : Store) (address : Option Address) : Option String := s.addressCache address

def reset (s : Store) : Store := { s with addressCache := fun _ => none, domainCache := fun _ => none }

end Store

inductive Call
  | create (domain : String) (isIPv6 : Bool)
  | lookup (address : Option Address)
  | reset

/-- `handed` is the domain for which `Create` has last returned an address since the last `Reset`. -/
structure World where
  store : Store
  returned : List (Bool × Option Address)
  handed : Option Address → Option String

def World.start (r : Ranges) : World := ⟨.start r, [], fun _ => none⟩

def World.step (r : Ranges) (w : World) : Call → Option World
  | .create domain isIPv6 =>
    let result := w.store.create r domain isIPv6
    match result.2 with
    | .ok address => some ⟨result.1, (isIPv6, address) :: w.returned, update w.handed address (some domain)⟩
    | .error _ => some { w with store := result.1 }
  | .lookup _ => some w
  | .reset => some { w with store := w.store.reset, handed := fun _ => none }

def Ranges.Usable (r : Ranges) (isIPv6 : Bool) (address : Option Address) : Prop :=
  ∃ p a, r.range isIPv6 = some p ∧ address = some a ∧ p.contains a = true ∧ a ≠ p.broadcastAddress

def Store.Inverse (s : Store) : Prop :=
  ∀ isIPv6 domain address, s.domainCache (isIPv6, domain) = some address ↔
    s.addressCache address = some domain ∧ address.any Address.is4 = !isIPv6

structure Allocates (r : Ranges) (w : World) : Prop where
  usable : ∀ entry ∈ w.returned, r.Usable entry.1 entry.2
  lookup : ∀ address, w.store.lookup address = w.handed address
  inverse : w.store.Inverse

/-- The second address after the one a range is written with is in the range and not its last one. -/
def Ranges.Roomy (r : Ranges) : Prop :=
  ∀ isIPv6 p first, r.range isIPv6 = some p → next p.addr = some first → r.Usable isIPv6 (next first)

variable {r : Ranges} {isIPv6 : Bool} {p : Prefix} {s : Store} {w w' : World}
variable {address : Option Address} {domain : String}

theorem Ranges.Usable.is4 (h : r.Usable isIPv6 address) : address.any Address.is4 = !isIPv6 := by
  obtain ⟨p, a, hrange, rfl, hcontains, -⟩ := h
  rw [← r.family isIPv6 p hrange, Option.any_some]
  unfold Prefix.contains at hcontains
  split at hcontains
  · rename_i hp
    rw [hp]
    rfl
  · rename_i hp
    rw [hp]
    rfl
  · cases hcontains

theorem Ranges.Roomy.nextAddress {first : Address} (h : r.Roomy) (hrange : r.range isIPv6 = some p)
    (hfirst : next p.addr = some first) : r.Usable isIPv6 (p.nextAddress address) := by
  unfold Prefix.nextAddress
  split_ifs with hout
  · rw [hfirst]
    exact h isIPv6 p first hrange hfirst
  · push Not at hout
    obtain ⟨a, rfl, ha⟩ : ∃ a, address = some a ∧ p.contains a = true := by
      cases address <;> simp_all
    exact ⟨p, a, hrange, rfl, ha, fun heq => hout.1 (congrArg some heq)⟩

theorem Store.Inverse.fakeIPStore (h : s.Inverse) (hnew : s.domainCache (isIPv6, domain) = none)
    (hfamily : address.any Address.is4 = !isIPv6) : (s.fakeIPStore address domain).Inverse := by
  intro other domain' address'
  have hwas := h other domain' address'
  have hunused := h isIPv6 domain address'
  simp only [Store.fakeIPStore, hfamily, Bool.not_not]
  cases hold : s.addressCache address with
  | none =>
    grind
  | some old =>
    have hholder := (h isIPv6 old address).mpr ⟨hold, hfamily⟩
    grind

theorem fakeIPStore_cases {key : Bool × String} {found : Option Address}
    (h : (s.fakeIPStore address domain).domainCache key = some found) :
    key = (!address.any Address.is4, domain) ∧ found = address ∨ s.domainCache key = some found := by
  unfold Store.fakeIPStore at h
  cases hold : s.addressCache address <;> simp only [hold, update_apply] at h <;> grind

structure Sound (r : Ranges) (w : World) : Prop extends Allocates r w where
  known : ∀ isIPv6 domain address, w.store.domainCache (isIPv6, domain) = some address →
    (isIPv6, address) ∈ w.returned
  current : ∀ isIPv6 c, w.store.current isIPv6 = some c → ∃ first, (r.range isIPv6).bind (next ·.addr) = some first

theorem sound_start : Sound r (.start r) where
  usable := nofun
  lookup _ := rfl
  inverse _ _ _ := ⟨nofun, fun h => nomatch h.1⟩
  known := nofun
  current _ _ h := ⟨_, h⟩

theorem Sound.again (h : Sound r w) (hknown : w.store.domainCache (isIPv6, domain) = some address) :
    Sound r ⟨w.store, (isIPv6, address) :: w.returned, update w.handed address (some domain)⟩ := by
  have hhanded : w.handed address = some domain := (h.lookup address).symm.trans ((h.inverse ..).mp hknown).1
  rw [← hhanded, update_eq_self]
  refine { h with usable := ?_, known := fun _ _ _ hfound => .tail _ (h.known _ _ _ hfound) }
  exact List.forall_mem_cons.mpr ⟨h.usable _ (h.known _ _ _ hknown), h.usable⟩

theorem Sound.create (h : Sound r w) (hroomy : r.Roomy) {c : Address}
    (hnew : w.store.domainCache (isIPv6, domain) = none) (hrange : r.range isIPv6 = some p)
    (hcurrent : w.store.current isIPv6 = some c) (haddress : p.nextAddress (next c) = address) :
    Sound r ⟨Store.fakeIPStore { w.store with current := update w.store.current isIPv6 address } address domain,
      (isIPv6, address) :: w.returned, update w.handed address (some domain)⟩ := by
  obtain ⟨first, hfirst⟩ := h.current isIPv6 c hcurrent
  rw [hrange] at hfirst
  have husable : r.Usable isIPv6 address := haddress ▸ hroomy.nextAddress hrange hfirst
  have hinverse : Store.Inverse { w.store with current := update w.store.current isIPv6 address } := h.inverse
  refine ⟨⟨List.forall_mem_cons.mpr ⟨husable, h.usable⟩, ?_, hinverse.fakeIPStore hnew husable.is4⟩, ?_, ?_⟩
  · intro found
    exact congrFun (congrArg (fun cache => update cache address (some domain)) (funext h.lookup)) found
  · intro other domain' found hfound
    obtain ⟨hkey, rfl⟩ | hfound := fakeIPStore_cases hfound
    · rw [husable.is4, Bool.not_not] at hkey
      cases hkey
      exact List.mem_cons_self
    · exact .tail _ (h.known _ _ _ hfound)
  · intro other c' hc'
    by_cases hother : other = isIPv6
    · exact ⟨first, by rw [hother, hrange]; exact hfirst⟩
    · exact h.current other c' ((update_of_ne hother ..).symm.trans hc')

theorem Sound.step {call : Call} (h : Sound r w) (hroomy : r.Roomy) (hstep : w.step r call = some w') : Sound r w' := by
  cases call with
  | create domain isIPv6 =>
    simp only [World.step, Store.create] at hstep
    cases hknown : w.store.domainCache (isIPv6, domain) with
    | some address =>
      simp only [hknown] at hstep
      cases hstep
      exact h.again hknown
    | none =>
      cases hrange : r.range isIPv6 with
      | none =>
        simp only [hknown, hrange] at hstep
        cases hstep
        exact h
      | some p =>
        cases hcurrent : w.store.current isIPv6 with
        | none =>
          simp only [hknown, hrange, hcurrent] at hstep
          cases hstep
          exact h
        | some c =>
          simp only [hknown, hrange, hcurrent] at hstep
          cases hstep
          exact h.create hroomy hknown hrange hcurrent rfl
  | lookup address =>
    cases hstep
    exact h
  | reset =>
    cases hstep
    exact ⟨⟨h.usable, fun _ => rfl, fun _ _ _ => ⟨nofun, fun hfound => nomatch hfound.1⟩⟩, nofun, h.current⟩

theorem allocates_iff_roomy (r : Ranges) :
    (∀ calls w, Run (World.step r) anyStep (.start r) calls w → Allocates r w) ↔ r.Roomy := by
  constructor
  · intro h isIPv6 p first hrange hfirst
    have hnext : p.nextAddress (next first) = next first := by
      simp only [Prefix.nextAddress, hfirst, Option.bind_some, ite_self]
    have hcreate : ((Store.start r).create r "" isIPv6).2 = .ok (next first) := by
      simp only [Store.create, Store.start, hrange, Option.bind_some, hfirst, hnext]
    have hstep : (World.start r).step r (.create "" isIPv6) = some
        ⟨((Store.start r).create r "" isIPv6).1, [(isIPv6, next first)],
          update (fun _ => none) (next first) (some "")⟩ := by
      simp only [World.step, World.start, hcreate]
    exact (h _ _ (Run.nil.snoc trivial hstep)).usable _ List.mem_cons_self
  · intro hroomy calls w hrun
    exact (hrun.invariant (fun hw _ hstep => hw.step hroomy hstep) sound_start).toAllocates

def lateRange : Ranges where
  range isIPv6 := if isIPv6 then none else some ⟨.v4 0x0A0000FE#32, 24, by decide⟩
  family := by
    rintro (_ | _) p ⟨⟩
    rfl
  set := .inl nofun

-- the first address that is created is 10.0.1.0
theorem outside_range_created :
    ∃ w, Run (World.step lateRange) anyStep (.start lateRange) [.create "example.com" false] w ∧
      ¬Allocates lateRange w := by
  refine ⟨_, Run.nil.snoc trivial rfl, fun h => ?_⟩
  obtain ⟨p, a, ⟨⟩, ⟨⟩, hcontains, -⟩ := h.usable (false, some (.v4 0x0A000100#32)) (.head _)
  exact absurd hcontains (by decide)

end Hydracore.Dns.FakeIP
