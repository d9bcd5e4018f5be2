import Hydracore.Formats.Numbers
import Hydracore.Systems.Runs

namespace Hydracore.Cachefile

open Formats Systems List Option

structure SaveEntry (μ : Type) where
  message : μ
  sequence : UInt64
  saving : Bool

inductive Flush (μ : Type)
  | reading
  | saving (entry : SaveEntry μ)
  | checking (entry : SaveEntry μ)

/-- One key of the cache. `window` is what a load has to return now, if anything is said about it; `views` are the
loads that found no entry to save, each with what it has to return. -/
structure DnsCache (μ : Type) where
  saveDNSCache : Option (SaveEntry μ)
  bolt : Option μ
  flushes : List (Flush μ)
  clears : ℕ
  window : Option (Option μ)
  views : List (Option (Option μ))
  answers : List (Option (Option μ) × Option μ)

inductive CacheAct (μ : Type)
  | save (message : μ)
  | flush (k : ℕ)
  | clear
  | clearBatch
  | load
  | view (k : ℕ)

namespace DnsCache

variable {μ : Type}

def opened (bolt : Option μ) : DnsCache μ := ⟨none, bolt, [], 0, none, [], []⟩

def saveDNSCacheAsync (s : DnsCache μ) (message : μ) : DnsCache μ :=
  { s with
    saveDNSCache := some ⟨message, s.saveDNSCache.elim 0 (·.sequence) + 1, true⟩
    flushes := if s.saveDNSCache.any (·.saving) then s.flushes else s.flushes ++ [.reading]
    window := some (some message)
    views := s.views.map fun _ => none }

def flushPendingDNSCache (s : DnsCache μ) (k : ℕ) : Flush μ → DnsCache μ
  | .reading =>
    match s.saveDNSCache with
    | none => { s with flushes := s.flushes.eraseIdx k }
    | some entry => { s with flushes := s.flushes.set k (.saving entry) }
  | .saving entry => { s with bolt := some entry.message, flushes := s.flushes.set k (.checking entry) }
  | .checking entry =>
    match s.saveDNSCache with
    | none => { s with flushes := s.flushes.eraseIdx k }
    | some currentEntry =>
      if currentEntry.sequence ≠ entry.sequence then { s with flushes := s.flushes.set k .reading }
      else { s with saveDNSCache := none, flushes := s.flushes.eraseIdx k }

def step (s : DnsCache μ) : CacheAct μ → Option (DnsCache μ)
  | .save message => some (s.saveDNSCacheAsync message)
  | .flush k => (s.flushes[k]?).map (s.flushPendingDNSCache k)
  | .clear =>
    some { s with saveDNSCache := none, clears := s.clears + 1, window := none, views := s.views.map fun _ => none }
  | .clearBatch => if s.clears = 0 then none else some { s with bolt := none, clears := s.clears - 1, window := some none }
  | .load =>
    match s.saveDNSCache with
    | some entry => some { s with answers := (s.window, some entry.message) :: s.answers }
    | none => some { s with views := s.window :: s.views }
  | .view k =>
    (s.views[k]?).map fun window => { s with views := s.views.eraseIdx k, answers := (window, s.bolt) :: s.answers }

def Answered (s : DnsCache μ) : Prop := ∀ a ∈ s.answers, ∀ message, a.1 = some message → a.2 = message

def orderly (s : DnsCache μ) : CacheAct μ → Bool
  | .clear => s.flushes.isEmpty
  | .save _ => s.clears = 0 && s.saveDNSCache.all fun entry => entry.sequence + 1 ≠ 0
  | _ => true

end DnsCache

open DnsCache

variable {μ : Type} {s t : DnsCache μ}

/-- What the one flush in progress read is the entry to save or an earlier one. -/
def Flush.Fits (entry : SaveEntry μ) (bolt : Option μ) : Flush μ → Prop
  | .reading => True
  | .saving read => read.sequence.toNat ≤ entry.sequence.toNat ∧ (read.sequence = entry.sequence → read.message = entry.message)
  | .checking read => read.sequence.toNat ≤ entry.sequence.toNat ∧
    (read.sequence = entry.sequence → read.message = entry.message) ∧ bolt = some read.message

theorem Flush.Fits.newer {entry entry' : SaveEntry μ} {bolt : Option μ} {flush : Flush μ} (h : flush.Fits entry bolt)
    (hlt : entry.sequence.toNat < entry'.sequence.toNat) : flush.Fits entry' bolt := by
  cases flush with
  | reading => trivial
  | saving read => exact ⟨h.1.trans hlt.le, fun heq => absurd (heq ▸ h.1) (Nat.not_le.mpr hlt)⟩
  | checking read => exact ⟨h.1.trans hlt.le, fun heq => absurd (heq ▸ h.1) (Nat.not_le.mpr hlt), h.2.2⟩

structure DnsCache.Kept (s : DnsCache μ) : Prop where
  flushes : s.saveDNSCache = none ∧ s.flushes = [] ∨
    ∃ entry flush, s.saveDNSCache = some entry ∧ entry.saving ∧ s.flushes = [flush] ∧ flush.Fits entry s.bolt
  clears : 0 < s.clears → s.saveDNSCache = none ∧ ∀ message, s.window = some message → message = none
  window : ∀ message, s.window = some message → s.saveDNSCache.elim s.bolt (some ·.message) = message
  views : ∀ view ∈ s.views, ∀ message, view = some message → s.window = view ∧ s.saveDNSCache = none
  answered : s.Answered

theorem DnsCache.Kept.flush {k : ℕ} {flush : Flush μ} (h : s.Kept) (hk : s.flushes[k]? = some flush) :
    (s.flushPendingDNSCache k flush).Kept := by
  obtain ⟨hflushes, hclears, hwindow, hviews, hanswered⟩ := h
  rcases hflushes with ⟨-, hnone⟩ | ⟨entry, f, hentry, hsaving, hone, hfits⟩
  · simp [hnone] at hk
  obtain ⟨rfl, rfl⟩ : k = 0 ∧ f = flush := by cases k <;> simp_all
  cases f with
  | reading =>
    simp only [flushPendingDNSCache, hentry, hone]
    exact ⟨.inr ⟨entry, _, rfl, hsaving, rfl, Nat.le_refl _, fun _ => rfl⟩, hentry ▸ hclears, hentry ▸ hwindow,
      hentry ▸ hviews, hanswered⟩
  | saving read =>
    simp only [flushPendingDNSCache, hone]
    exact ⟨.inr ⟨entry, _, hentry, hsaving, rfl, hfits.1, hfits.2, rfl⟩, hclears, by simpa [hentry] using hwindow,
      hviews, hanswered⟩
  | checking read =>
    simp only [flushPendingDNSCache, hentry, hone]
    split_ifs with hsame
    · exact ⟨.inr ⟨entry, _, rfl, hsaving, rfl, trivial⟩, hentry ▸ hclears, hentry ▸ hwindow, hentry ▸ hviews, hanswered⟩
    · -- the entry is in bolt, so a load finds there what it found here
      have hsaved : s.bolt = some entry.message := by rw [hfits.2.2, hfits.2.1 (not_not.mp hsame).symm]
      refine ⟨.inl ⟨rfl, rfl⟩, fun hpos => ⟨rfl, (hclears hpos).2⟩, ?_, ?_, hanswered⟩
      · simpa [hentry, hsaved] using hwindow
      · exact fun view hview message hmessage => ⟨(hviews view hview message hmessage).1, rfl⟩

theorem DnsCache.Kept.step {a : CacheAct μ} (h : s.Kept) (hmet : s.orderly a = true) (hstep : s.step a = some t) :
    t.Kept := by
  obtain ⟨hflushes, hclears, hwindow, hviews, hanswered⟩ := id h
  cases a with
  | save message =>
    cases hstep
    obtain ⟨hidle, hroom⟩ := Bool.and_eq_true_iff.mp hmet
    rw [decide_eq_true_iff] at hidle
    refine ⟨.inr ?_, by simp [saveDNSCacheAsync, hidle], by simp [saveDNSCacheAsync], by simp [saveDNSCacheAsync], hanswered⟩
    rcases hflushes with ⟨hnone, hempty⟩ | ⟨entry, flush, hentry, hsaving, hone, hfits⟩
    · exact ⟨_, .reading, rfl, rfl, by simp [saveDNSCacheAsync, hnone, hempty], trivial⟩
    · refine ⟨_, flush, rfl, rfl, by simp [saveDNSCacheAsync, hentry, hsaving, hone], ?_⟩
      rw [hentry, all_some, decide_eq_true_iff] at hroom
      apply hfits.newer
      rw [hentry, elim_some, toNat_succ_of_ne hroom]
      exact Nat.lt_succ_self _
  | flush k =>
    obtain ⟨flush, hk, rfl⟩ := map_eq_some_iff.mp hstep
    exact h.flush hk
  | clear =>
    cases hstep
    exact ⟨.inl ⟨rfl, by simpa [orderly] using hmet⟩, by simp, nofun, by simp, hanswered⟩
  | clearBatch =>
    simp only [DnsCache.step] at hstep
    split_ifs at hstep with hzero
    cases hstep
    obtain ⟨hnone, hwindows⟩ := hclears (Nat.pos_of_ne_zero hzero)
    refine ⟨by grind, fun _ => ⟨hnone, by simp⟩, by simp [hnone], ?_, hanswered⟩
    intro view hview message hmessage
    obtain ⟨hsame, -⟩ := hviews view hview message hmessage
    have hempty := hwindows message (hsame.trans hmessage)
    exact ⟨by rw [hmessage, hempty], hnone⟩
  | load =>
    simp only [DnsCache.step] at hstep
    split at hstep
    all_goals
      rename_i hentry
      cases hstep
    · refine ⟨hflushes, hclears, hwindow, hviews, forall_mem_cons.mpr ⟨fun message hmessage => ?_, hanswered⟩⟩
      rw [← hwindow message hmessage, hentry]
      rfl
    · exact ⟨hflushes, hclears, hwindow, forall_mem_cons.mpr ⟨fun _ _ => ⟨rfl, hentry⟩, hviews⟩, hanswered⟩
  | view k =>
    obtain ⟨window, hk, rfl⟩ := map_eq_some_iff.mp hstep
    refine ⟨hflushes, hclears, hwindow, fun view hview => hviews view (mem_of_mem_eraseIdx hview),
      forall_mem_cons.mpr ⟨fun message hmessage => ?_, hanswered⟩⟩
    obtain ⟨hsame, hnone⟩ := hviews window (mem_of_getElem? hk) message hmessage
    rw [← hwindow message (hsame.trans hmessage), hnone]
    rfl

theorem loads_answered {bolt : Option μ} {acts : List (CacheAct μ)}
    (h : Run DnsCache.step (orderly · ·) (opened bolt) acts s) : s.Answered :=
  (h.invariant (P := Kept) .step
    ⟨.inl ⟨rfl, rfl⟩, by simp [opened], by simp [opened], forall_mem_nil _, forall_mem_nil _⟩).answered

theorem save_then_clear_answered : ∃ s : DnsCache ℕ, Run DnsCache.step (orderly · ·) (opened none)
    [.save 7, .flush 0, .save 8, .load, .flush 0, .flush 0, .flush 0, .flush 0, .flush 0, .load, .view 0, .clear,
      .clearBatch, .load, .view 0] s ∧ s.Answered ∧
    s.answers = [(some none, none), (some (some 8), some 8), (some (some 8), some 8)] := by
  refine (Run.exists_of_decideWhile ?_).imp fun s ⟨hrun, hs⟩ => ⟨hrun, loads_answered hrun, hs⟩
  decide +kernel

theorem flush_writes_after_clear : ∃ s : DnsCache ℕ, Run DnsCache.step anyStep (opened none)
    [.save 7, .flush 0, .clear, .clearBatch, .flush 0, .load, .view 0] s ∧ s.answers = [(some none, some 7)] := by
  apply Run.exists_of_decide
  decide +kernel

end Hydracore.Cachefile
