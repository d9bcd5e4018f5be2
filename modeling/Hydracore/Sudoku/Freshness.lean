import Hydracore.Formats.Numbers
import Hydracore.Systems.Runs
import Mathlib.Data.List.Nodup

namespace Hydracore.Sudoku

open Formats Systems List

variable {ν : Type}

def second : ℕ := 1000000000

def handshakeReplayTTL : ℕ := 60 * second

structure NonceSet (ν : Type) where
  m : List (ν × ℕ)
  maxEntries : ℕ
  lastPrune : Option ℕ

namespace NonceSet

def new (maxEntries : ℕ) : NonceSet ν := ⟨[], if maxEntries = 0 then 4096 else maxEntries, none⟩

def evict (choose : ℕ → ℕ) : ℕ → List (ν × ℕ) → List (ν × ℕ)
  | 0, m => m
  | excess + 1, m => evict choose excess (m.eraseIdx (choose excess % m.length))

def prune (s : NonceSet ν) (now : ℕ) (choose : ℕ → ℕ) : NonceSet ν :=
  let m := s.m.filter fun entry => decide (now < entry.2)
  { s with m := evict choose (m.length - s.maxEntries) m, lastPrune := some now }

def pruned (s : NonceSet ν) (now ttl : ℕ) (choose : ℕ → ℕ) : NonceSet ν :=
  if s.lastPrune.all (fun last => decide (ttl / 2 < now - last)) ∨ s.maxEntries < s.m.length then s.prune now choose else s

variable [DecidableEq ν]

def expiry (s : NonceSet ν) (nonce : ν) : Option ℕ := (s.m.find? fun entry => decide (entry.1 = nonce)).map Prod.snd

def remember (s : NonceSet ν) (nonce : ν) (exp : ℕ) : NonceSet ν :=
  { s with m := (nonce, exp) :: s.m.filter fun entry => decide (entry.1 ≠ nonce) }

/-- What is remembered is `ttl` old when it expires, a minute if that is not positive. -/
def lifetime (ttl : ℕ) : ℕ := if ttl = 0 then 60 * second else ttl

def allow (s : NonceSet ν) (nonce : ν) (now ttl : ℕ) (choose : ℕ → ℕ) : NonceSet ν × Bool :=
  let kept := s.pruned now (lifetime ttl) choose
  if (kept.expiry nonce).any fun exp => decide (now < exp) then (kept, false)
  else (kept.remember nonce (now + lifetime ttl), true)

end NonceSet

structure ClientHello (ν : Type) where
  timestamp : ℤ
  userHash : String
  nonce : ν
  deriving DecidableEq

def absInt64 (v : ℤ) : ℤ := if v < 0 then int64 (-v) else v

inductive Entry
  | serverHandshake
  | processEarlyClientPayload

def kipHandshakeSkew : ℤ := 60

def earlyKIPHandshakeTTL : ℤ := 60

def Entry.skew : Entry → ℤ
  | serverHandshake => kipHandshakeSkew
  | processEarlyClientPayload => earlyKIPHandshakeTTL

def unix (now : ℕ) : ℤ := now / second

def skewed (entry : Entry) (now : ℕ) (hello : ClientHello ν) : Bool :=
  decide (entry.skew < absInt64 (int64 (unix now - hello.timestamp)))

def userKey (userHash : String) : String := if userHash = "" then "_" else userHash

/-- `pending` has the handshakes past the check of the time, with the time that they have read for `allow`, `passed` those
past both checks, and `latest` is the latest time of an `allow`. -/
structure Server (ν : Type) where
  clock : ℕ
  users : String → Option (NonceSet ν)
  pending : List (ClientHello ν × Option ℕ)
  passed : List (ClientHello ν × ℕ)
  latest : ℕ

inductive Step (ν : Type)
  | tick (elapsed : ℕ)
  | present (entry : Entry) (hello : ClientHello ν)
  | readClock (i : ℕ)
  | allow (i : ℕ) (choose : ℕ → ℕ)

namespace Server

def start (clock : ℕ) : Server ν := ⟨clock, fun _ => none, [], [], 0⟩

def nonceSet (s : Server ν) (userHash : String) : NonceSet ν := (s.users (userKey userHash)).getD (.new 4096)

variable [DecidableEq ν]

def allow (s : Server ν) (hello : ClientHello ν) (now : ℕ) (choose : ℕ → ℕ) : Server ν :=
  let allowed := (s.nonceSet hello.userHash).allow hello.nonce now handshakeReplayTTL choose
  { s with
    users := Function.update s.users (userKey hello.userHash) (some allowed.1)
    passed := if allowed.2 then (hello, now) :: s.passed else s.passed
    latest := max s.latest now }

def step (s : Server ν) : Step ν → Option (Server ν)
  | .tick elapsed => some { s with clock := s.clock + elapsed }
  | .present entry hello =>
    if skewed entry s.clock hello then some s else some { s with pending := s.pending ++ [(hello, none)] }
  | .readClock i =>
    match s.pending[i]? with
    | some (hello, none) => some { s with pending := s.pending.set i (hello, some s.clock) }
    | _ => none
  | .allow i choose =>
    match s.pending[i]? with
    | some (hello, some now) => some ({ s with pending := s.pending.eraseIdx i }.allow hello now choose)
    | _ => none

end Server

theorem lt_add_ttl {hello : ClientHello ν} {now time : ℕ} (hlater : hello.timestamp < unix time)
    (hnow : unix now ≤ hello.timestamp + 60) :
    now < time + handshakeReplayTTL := by
  simp only [unix, second, handshakeReplayTTL] at *
  omega

theorem Server.nonceSet_eq {s : Server ν} {userHash userHash' : String} (h : userKey userHash = userKey userHash') :
    s.nonceSet userHash = s.nonceSet userHash' := by
  rw [nonceSet, nonceSet, h]

variable [DecidableEq ν]

namespace NonceSet

variable {s : NonceSet ν} {nonce other : ν} {now ttl exp : ℕ} {choose : ℕ → ℕ}

def unexpired (s : NonceSet ν) (now : ℕ) : ℕ := s.m.countP fun entry => decide (now < entry.2)

theorem find?_filter_of_find? {entries : List (ν × ℕ)} {keep : ν × ℕ → Bool} {entry : ν × ℕ}
    (h : entries.find? (fun e => decide (e.1 = nonce)) = some entry) (hkeep : keep entry = true) :
    (entries.filter keep).find? (fun e => decide (e.1 = nonce)) = some entry := by
  induction entries with
  | nil => cases h
  | cons first rest ih =>
    by_cases hfirst : first.1 = nonce
    · rw [find?_cons_of_pos (by simpa using hfirst)] at h
      cases h
      rw [filter_cons_of_pos hkeep, find?_cons_of_pos (by simpa using hfirst)]
    · rw [find?_cons_of_neg (by simpa using hfirst)] at h
      by_cases hkeeps : keep first = true
      · rw [filter_cons_of_pos hkeeps, find?_cons_of_neg (by simpa using hfirst)]
        exact ih h
      · rw [filter_cons_of_neg hkeeps]
        exact ih h

theorem expiry_pruned (hcap : s.unexpired now ≤ s.maxEntries) (hother : s.expiry other = some exp) (hexp : now < exp) :
    (s.pruned now ttl choose).expiry other = some exp := by
  unfold pruned
  split_ifs
  · obtain ⟨entry, hentry, rfl⟩ := Option.map_eq_some_iff.mp hother
    have hnone : (s.m.filter fun entry => decide (now < entry.2)).length - s.maxEntries = 0 := by
      rw [← countP_eq_length_filter]
      exact Nat.sub_eq_zero_of_le hcap
    rw [prune, expiry, hnone, evict, find?_filter_of_find? hentry (by simpa using hexp)]
    rfl
  · exact hother

theorem expiry_remember_of_ne {exp' : ℕ} (hne : other ≠ nonce) (h : s.expiry other = some exp) :
    (s.remember nonce exp').expiry other = some exp := by
  obtain ⟨entry, hentry, rfl⟩ := Option.map_eq_some_iff.mp h
  have hkey : entry.1 = other := by simpa using find?_some hentry
  rw [expiry, remember, find?_cons_of_neg (by simpa using hne.symm),
    find?_filter_of_find? hentry (by simpa [hkey] using hne)]
  rfl

theorem allow_keeps (hcap : s.unexpired now ≤ s.maxEntries) (hother : s.expiry other = some exp) (hexp : now < exp) :
    (s.allow nonce now ttl choose).1.expiry other = some exp ∧
      ((s.allow nonce now ttl choose).2 = true → other ≠ nonce) := by
  have hkept : (s.pruned now (lifetime ttl) choose).expiry other = some exp := expiry_pruned hcap hother hexp
  simp only [allow]
  split_ifs with hknown
  · exact ⟨hkept, nofun⟩
  · have hne : other ≠ nonce := by
      rintro rfl
      simp only [hkept, Option.any_some, decide_eq_true_eq] at hknown
      exact hknown hexp
    exact ⟨expiry_remember_of_ne hne hkept, fun _ => hne⟩

theorem allow_remembers (h : (s.allow nonce now ttl choose).2 = true) :
    (s.allow nonce now ttl choose).1.expiry nonce = some (now + lifetime ttl) := by
  simp only [allow] at h ⊢
  split_ifs at h ⊢ with hknown
  simp [expiry, remember]

end NonceSet

namespace Server

variable {s s' : Server ν} {hello : ClientHello ν} {now : ℕ} {choose : ℕ → ℕ}

def orderly (s : Server ν) : Step ν → Bool
  | .allow i _ =>
    match s.pending[i]? with
    | some (hello, some now) =>
      decide (s.latest ≤ now) && decide (hello.timestamp < unix now) && decide (unix now ≤ hello.timestamp + 60) &&
        decide ((s.nonceSet hello.userHash).unexpired now ≤ (s.nonceSet hello.userHash).maxEntries)
    | _ => true
  | _ => true

structure Sound (s : Server ν) : Prop where
  remembered : ∀ p ∈ s.passed, s.latest < p.2 + handshakeReplayTTL →
    ∃ exp, (s.nonceSet p.1.userHash).expiry p.1.nonce = some exp ∧ p.2 + handshakeReplayTTL ≤ exp
  later : ∀ p ∈ s.passed, p.1.timestamp < unix p.2
  distinct : (s.passed.map Prod.fst).Nodup

theorem nonceSet_allow (s : Server ν) (hello : ClientHello ν) (now : ℕ) (choose : ℕ → ℕ) (userHash : String) :
    (s.allow hello now choose).nonceSet userHash = if userKey userHash = userKey hello.userHash then
        ((s.nonceSet hello.userHash).allow hello.nonce now handshakeReplayTTL choose).1
      else s.nonceSet userHash := by
  by_cases hkey : userKey userHash = userKey hello.userHash
  · simp only [hkey, if_true, nonceSet, allow, Function.update_self, Option.getD_some]
  · simp only [hkey, if_false, nonceSet, allow, ne_eq, not_false_eq_true, Function.update_of_ne]

theorem Sound.allow (h : Sound s) (hlatest : s.latest ≤ now) (hlater : hello.timestamp < unix now)
    (hnow : unix now ≤ hello.timestamp + 60)
    (hcap : (s.nonceSet hello.userHash).unexpired now ≤ (s.nonceSet hello.userHash).maxEntries) :
    Sound (s.allow hello now choose) := by
  -- what passed before and is still good is in memory, and is another hello if this one passes
  have hkept : ∀ p ∈ s.passed, now < p.2 + handshakeReplayTTL →
      (∃ exp, ((s.allow hello now choose).nonceSet p.1.userHash).expiry p.1.nonce = some exp ∧
        p.2 + handshakeReplayTTL ≤ exp) ∧
      (((s.nonceSet hello.userHash).allow hello.nonce now handshakeReplayTTL choose).2 = true → p.1 ≠ hello) := by
    intro p hp hgood
    obtain ⟨exp, hexp, hle⟩ := h.remembered p hp (by omega)
    rw [nonceSet_allow]
    split_ifs with hkey
    · rw [nonceSet_eq hkey] at hexp
      obtain ⟨hstays, hother⟩ := NonceSet.allow_keeps hcap hexp (by omega)
      exact ⟨⟨exp, hstays, hle⟩, fun hok heq => hother hok (heq ▸ rfl)⟩
    · exact ⟨⟨exp, hexp, hle⟩, fun _ heq => hkey (heq ▸ rfl)⟩
  have hmax : (s.allow hello now choose).latest = now := Nat.max_eq_right hlatest
  cases hok : ((s.nonceSet hello.userHash).allow hello.nonce now handshakeReplayTTL choose).2 with
  | false =>
    have hpassed : (s.allow hello now choose).passed = s.passed := by simp [Server.allow, hok]
    rw [← hpassed] at hkept
    refine ⟨fun p hp hgood => (hkept p hp (hmax ▸ hgood)).1, hpassed ▸ h.later, hpassed ▸ h.distinct⟩
  | true =>
    have hpassed : (s.allow hello now choose).passed = (hello, now) :: s.passed := by simp [Server.allow, hok]
    refine ⟨?_, ?_, ?_⟩
    · rw [hpassed, hmax]
      refine forall_mem_cons.mpr ⟨fun _ => ⟨_, ?_, Nat.le_refl _⟩, fun p hp hgood => (hkept p hp hgood).1⟩
      rw [nonceSet_allow, if_pos rfl]
      exact NonceSet.allow_remembers hok
    · rw [hpassed]
      exact forall_mem_cons.mpr ⟨hlater, h.later⟩
    · rw [hpassed, map_cons, nodup_cons]
      refine ⟨fun hmem => ?_, h.distinct⟩
      obtain ⟨p, hp, rfl⟩ := mem_map.mp hmem
      exact (hkept p hp (lt_add_ttl (h.later p hp) hnow)).2 hok rfl

theorem Sound.step {a : Step ν} (h : Sound s) (hmet : orderly s a = true) (hs : s.step a = some s') : Sound s' := by
  cases a with simp only [Server.step] at hs
  | tick elapsed =>
    cases hs
    exact ⟨h.remembered, h.later, h.distinct⟩
  | present entry hello =>
    split_ifs at hs
    · cases hs
      exact h
    · cases hs
      exact ⟨h.remembered, h.later, h.distinct⟩
  | readClock i =>
    split at hs
    · cases hs
      exact ⟨h.remembered, h.later, h.distinct⟩
    · cases hs
  | allow i choose =>
    split at hs
    · next hello now hpending =>
      simp only [orderly, hpending, Bool.and_eq_true, decide_eq_true_eq] at hmet
      obtain ⟨⟨⟨hlatest, hlater⟩, hnow⟩, hcap⟩ := hmet
      cases hs
      have hrest : Sound { s with pending := s.pending.eraseIdx i } := ⟨h.remembered, h.later, h.distinct⟩
      exact hrest.allow hlatest hlater hnow hcap
    · cases hs

theorem passes_once {clock : ℕ} {steps : List (Step ν)} (h : Run step (orderly · ·) (start clock) steps s) :
    (s.passed.map Prod.fst).Nodup := by
  have hsound : Sound s := h.invariant .step ⟨nofun, nofun, nodup_nil⟩
  exact hsound.distinct

section Runs

def handshake (hello : ClientHello ℕ) : List (Step ℕ) :=
  [.present .serverHandshake hello, .readClock 0, .allow 0 fun _ => 0]

def replayed : List (Step ℕ) :=
  handshake ⟨99, "ab", 7⟩ ++ [Step.tick (30 * second)] ++ handshake ⟨99, "ab", 7⟩

theorem passes_once_replayed : ∃ s : Server ℕ, Run step (orderly · ·) (start (100 * second)) replayed s ∧
    (s.passed.map Prod.fst).Nodup ∧ s.passed = [(⟨99, "ab", 7⟩, 100 * second)] := by
  refine (Run.exists_of_decideWhile ?_).imp fun s ⟨hrun, hs⟩ => ⟨hrun, passes_once hrun, hs⟩
  decide +kernel

theorem passes_again : ∃ s : Server ℕ, Run step anyStep (start (100 * second))
    (handshake ⟨100, "ab", 7⟩ ++ [.tick (60 * second), .present .processEarlyClientPayload ⟨100, "ab", 7⟩, .readClock 0,
      .allow 0 fun _ => 0]) s ∧
    s.passed = [(⟨100, "ab", 7⟩, 160 * second), (⟨100, "ab", 7⟩, 100 * second)] := by
  apply Run.exists_of_decide
  decide +kernel

end Runs

end Server

end Hydracore.Sudoku
