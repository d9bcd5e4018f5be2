import Hydracore.Cachefile.FakeIP
import Hydracore.Systems.Tasks

namespace Hydracore.Cachefile

open Systems List Option Function Writer

variable {log : Log} {a b : Address} {d : String} {k : Bool × String}

theorem lastDomain_cons_self : lastDomain ((a, d) :: log) a = some d := by
  simp [lastDomain]

theorem lastDomain_cons_of_ne (h : a ≠ b) : lastDomain ((a, d) :: log) b = lastDomain log b := by
  simp [lastDomain, h]

theorem lastAddress_cons_self : lastAddress ((a, d) :: log) (a.is4, d) = some a := by
  simp [lastAddress]

theorem lastAddress_cons_of_ne (h : (a.is4, d) ≠ k) : lastAddress ((a, d) :: log) k = lastAddress log k := by
  simp [lastAddress, h]

theorem mem_of_lastAddress (h : lastAddress log k = some a) : (a, k.2) ∈ log ∧ a.is4 = k.1 := by
  obtain ⟨e, he, rfl⟩ := map_eq_some_iff.mp h
  have hmem := mem_of_find?_eq_some he
  obtain rfl : (e.1.is4, e.2) = k := by simpa using find?_some he
  exact ⟨hmem, rfl⟩

namespace CacheFile

variable {c c' : CacheFile} {i j : ℕ} {w w' : Writer} {q : Query}

/-- The entries being saved are those of the goroutines in flight, no two of which share an address or a domain. -/
structure Saving (c : CacheFile) : Prop where
  domain : ∀ a d, c.saveDomain a = some d ↔
    ∃ (i : ℕ) (w : Writer), c.writers[i]? = some w ∧ w.inFlight = true ∧ w.address = a ∧ w.domain = d
  address : ∀ k a, c.saveAddress k = some a ↔
    ∃ (i : ℕ) (w : Writer), c.writers[i]? = some w ∧ w.inFlight = true ∧ w.address = a ∧ w.key = k
  unique : ∀ (i j : ℕ) (w w' : Writer), c.writers[i]? = some w → c.writers[j]? = some w' → w.inFlight = true → w'.inFlight = true →
    w.address = w'.address ∨ w.key = w'.key → i = j
  newest : ∀ (i : ℕ) (w : Writer), c.writers[i]? = some w → w.inFlight = true →
    lastDomain c.log w.address = some w.domain ∧ lastAddress c.log w.key = some w.address

structure Written (c : CacheFile) : Prop where
  domain : ∀ a, (∀ (i : ℕ) (w : Writer), c.writers[i]? = some w → w.phase = .storing → w.address ≠ a) →
    c.bucketFakeIP a = lastDomain c.log a
  replaced : ∀ (i : ℕ) (w : Writer), c.writers[i]? = some w → w.phase = .storing → ∀ d, c.bucketFakeIP w.address = some d →
    d = w.domain ∨ lastAddress c.log (w.address.is4, d) = some w.address
  address : ∀ k a, lastAddress c.log k = some a → lastDomain c.log a = some k.2 →
    (∀ (i : ℕ) (w : Writer), c.writers[i]? = some w → w.phase = .storing → w.key ≠ k) → c.bucketFakeIPDomain k = some a
  logged : ∀ k a, c.bucketFakeIPDomain k = some a → (a, k.2) ∈ c.log ∧ a.is4 = k.1

def Load.Sound (c : CacheFile) (l : Load) : Prop :=
  match l.phase with
  | .entered => c.log ∈ l.seen
  | .missed => c.log ∈ l.seen ∧ ∃ log ∈ l.seen, Accepts log l.query (c.view l.query)
  | .returned answer => ∃ log ∈ l.seen, Accepts log l.query answer

structure Sound (c : CacheFile) : Prop where
  saving : Saving c
  written : Written c
  loads : ∀ l ∈ c.loads, Load.Sound c l

theorem saving_nothing (hdomain : c.saveDomain = fun _ => none) (haddress : c.saveAddress = fun _ => none)
    (hwriters : c.writers = []) : Saving c := by
  refine ⟨fun a d => ?_, fun k a => ?_, by simp [hwriters], by simp [hwriters]⟩
  · simp [hdomain, hwriters]
  · simp [haddress, hwriters]

theorem sound_start : Sound start :=
  ⟨saving_nothing rfl rfl rfl, ⟨fun _ _ => rfl, nofun, nofun, nofun⟩, nofun⟩

theorem inFlight_of_storing (h : w.phase = .storing) : w.inFlight = true := by
  simp [inFlight, h]

section Answers

theorem Sound.accepts_cached (h : Sound c) {answer : Answer} (hcached : c.cached q = some answer) :
    Accepts c.log q answer := by
  cases q with
  | domainOf a =>
    obtain ⟨d, hd, rfl⟩ := map_eq_some_iff.mp hcached
    obtain ⟨i, w, hw, hflight, rfl, rfl⟩ := (h.saving.domain a d).mp hd
    exact (h.saving.newest i w hw hflight).1.symm
  | addressOf is4 d =>
    obtain ⟨a, ha, rfl⟩ := map_eq_some_iff.mp hcached
    obtain ⟨i, w, hw, hflight, rfl, hkey⟩ := (h.saving.address _ a).mp ha
    have hlast := (h.saving.newest i w hw hflight).2
    rw [hkey] at hlast
    refine ⟨fun b hb _ => hlast.symm.trans hb, fun b hb => ?_⟩
    cases hb
    exact mem_of_lastAddress hlast

theorem Sound.accepts_view (h : Sound c) (hcached : c.cached q = none) : Accepts c.log q (c.view q) := by
  cases q with
  | domainOf a =>
    have hnone : c.saveDomain a = none := map_eq_none_iff.mp hcached
    apply h.written.domain a
    rintro i w hw hstoring rfl
    have hsome := (h.saving.domain w.address w.domain).mpr ⟨i, w, hw, inFlight_of_storing hstoring, rfl, rfl⟩
    rw [hnone] at hsome
    cases hsome
  | addressOf is4 d =>
    have hnone : c.saveAddress (is4, d) = none := map_eq_none_iff.mp hcached
    refine ⟨fun b hlast hdomain => ?_, h.written.logged (is4, d)⟩
    apply h.written.address (is4, d) b hlast hdomain
    intro i w hw hstoring hkey
    have hsome := (h.saving.address (is4, d) w.address).mpr ⟨i, w, hw, inFlight_of_storing hstoring, rfl, hkey⟩
    rw [hnone] at hsome
    cases hsome

theorem Sound.accepts_load (h : Sound c) (q : Query) : Accepts c.log q (c.load q) := by
  unfold load
  cases hcached : c.cached q with
  | none => exact h.accepts_view hcached
  | some answer => exact h.accepts_cached hcached

end Answers

section Loads

variable {l : Load}

theorem Load.Sound.keep (h : Sound c l) (hlog : c'.log = c.log)
    (hview : c'.view l.query = c.view l.query ∨ Accepts c.log l.query (c'.view l.query)) : Sound c' l := by
  unfold Sound at h ⊢
  rw [hlog]
  cases hphase : l.phase with
  | entered | returned answer => simpa only [hphase] using h
  | missed =>
    simp only [hphase] at h ⊢
    refine ⟨h.1, ?_⟩
    rcases hview with hsame | haccepts
    · exact hsame ▸ h.2
    · exact ⟨c.log, h.1, haccepts⟩

theorem Load.Sound.congr (h : Sound c l) (hlog : c'.log = c.log)
    (hview : c'.view l.query = c.view l.query) : Sound c' l :=
  h.keep hlog (.inl hview)

theorem Load.Sound.see (h : Sound c l) (hlog : c'.log = log)
    (hview : c'.view l.query = c.view l.query ∨ Accepts log l.query (c'.view l.query)) :
    Sound c' (l.see log) := by
  unfold Sound at h ⊢
  unfold Load.see
  cases hphase : l.phase with
  | entered =>
    simp only [hlog]
    simp
  | missed =>
    simp only [hphase] at h ⊢
    rw [hlog]
    refine ⟨by simp, ?_⟩
    rcases hview with hsame | haccepts
    · obtain ⟨old, hold, haccepts⟩ := h.2
      exact ⟨old, mem_append_left _ hold, hsame ▸ haccepts⟩
    · exact ⟨log, by simp, haccepts⟩
  | returned answer =>
    simp only [hphase] at h ⊢
    exact h

theorem Sound.setLoad (h : Sound c) (hnew : Load.Sound c l) : Sound { c with loads := c.loads.set j l } := by
  refine ⟨⟨h.saving.domain, h.saving.address, h.saving.unique, h.saving.newest⟩,
    ⟨h.written.domain, h.written.replaced, h.written.address, h.written.logged⟩, ?_⟩
  exact forall_mem_set (fun l' hl' => (h.loads l' hl').congr rfl rfl) (hnew.congr rfl rfl)

theorem Sound.call (h : Sound c) : Sound { c with loads := c.loads ++ [⟨q, .entered, [c.log]⟩] } := by
  refine ⟨⟨h.saving.domain, h.saving.address, h.saving.unique, h.saving.newest⟩,
    ⟨h.written.domain, h.written.replaced, h.written.address, h.written.logged⟩, ?_⟩
  exact forall_mem_concat (fun l hl => (h.loads l hl).congr rfl rfl) (mem_singleton_self c.log)

theorem Sound.lookup (h : Sound c) (hl : c.loads[j]? = some l) (hc : c.lookup j l = some c') : Sound c' := by
  obtain ⟨hphase, hc⟩ := ite_none_right_eq_some.mp hc
  have hload := h.loads l (mem_of_getElem? hl)
  rw [Load.Sound, hphase] at hload
  cases hcached : c.cached l.query with
  | some answer =>
    rw [hcached] at hc
    cases hc
    exact h.setLoad ⟨c.log, hload, h.accepts_cached hcached⟩
  | none =>
    rw [hcached] at hc
    cases hc
    exact h.setLoad ⟨hload, c.log, hload, h.accepts_view hcached⟩

theorem Sound.viewStep (h : Sound c) (hl : c.loads[j]? = some l) (hc : c.viewStep j l = some c') : Sound c' := by
  obtain ⟨hphase, hc⟩ := ite_none_right_eq_some.mp hc
  cases hc
  have hload := h.loads l (mem_of_getElem? hl)
  rw [Load.Sound, hphase] at hload
  exact h.setLoad hload.2

end Loads

section Stores

structure Free (c : CacheFile) (a : Address) (d : String) : Prop where
  address : ∀ (i : ℕ) (w : Writer), c.writers[i]? = some w → w.inFlight = true → w.address ≠ a
  key : ∀ (i : ℕ) (w : Writer), c.writers[i]? = some w → w.inFlight = true → w.key ≠ (a.is4, d)
  former : ∀ b, lastAddress c.log (a.is4, d) = some b → ∀ (i : ℕ) (w : Writer), c.writers[i]? = some w → w.inFlight = true →
    w.address ≠ b
  unmoved : ∀ old, lastDomain c.log a = some old → old = d ∨ lastAddress c.log (a.is4, old) = some a

theorem quiet_iff : c.quiet a = true ↔ ∀ (i : ℕ) (w : Writer), c.writers[i]? = some w → w.inFlight = true → w.address ≠ a := by
  simp only [quiet, List.all_eq_true, Bool.or_eq_true, Bool.not_eq_true', decide_eq_true_eq]
  constructor
  · intro h i w hw hflight
    exact (h w (mem_of_getElem? hw)).resolve_left (by simp [hflight])
  · intro h w hw
    obtain ⟨i, hi⟩ := mem_iff_getElem?.mp hw
    by_cases hflight : w.inFlight = true
    · exact .inr (h i w hi hflight)
    · exact .inl (Bool.eq_false_iff.mpr hflight)

theorem free_of_careful (h : c.careful (.storeAsync a d) = true) : Free c a d := by
  simp only [careful, Bool.and_eq_true, Option.all_eq_true, Bool.or_eq_true, decide_eq_true_eq] at h
  obtain ⟨⟨⟨haddress, hkey⟩, hformer⟩, hunmoved⟩ := h
  refine ⟨quiet_iff.mp haddress, ?_, fun b hb => quiet_iff.mp (hformer b hb), hunmoved⟩
  intro i w hw hflight
  simp only [quietKey, List.all_eq_true, Bool.or_eq_true, Bool.not_eq_true', decide_eq_true_eq] at hkey
  exact (hkey w (mem_of_getElem? hw)).resolve_left (by simp [hflight])

theorem Saving.saveDomain_none (h : Saving c) (hfree : Free c a d) : c.saveDomain a = none := by
  rw [eq_none_iff_forall_ne_some]
  intro old hold
  obtain ⟨i, w, hw, hflight, haddress, -⟩ := (h.domain a old).mp hold
  exact hfree.address i w hw hflight haddress

theorem indexes_saveAddress : (∀ k a, c.saveAddress k = some a ↔
    ∃ (i : ℕ) (w : Writer), c.writers[i]? = some w ∧ w.inFlight = true ∧ w.address = a ∧ w.key = k) ↔
    Indexes c.saveAddress inFlight key address c.writers := by
  simp only [Indexes, and_comm]

theorem Saving.store (h : Saving c) (hfree : Free c a d) :
    Saving ((c.fakeIPStoreAsync a d).record ((a, d) :: c.log)) := by
  have haddress := (indexes_saveAddress.mp h.address).concat (a := Writer.mk a d .storing) rfl hfree.key
  refine ⟨Indexes.concat (a := Writer.mk a d .storing) h.domain rfl hfree.address, indexes_saveAddress.mpr ?_, ?_, ?_⟩
  · simp only [fakeIPStoreAsync, h.saveDomain_none hfree]
    exact haddress
  · intro i j w w' hw hw' hflight hflight' hsame
    rcases getElem?_concat_cases hw with hold | ⟨hi, rfl⟩
    · rcases getElem?_concat_cases hw' with hold' | ⟨hj, rfl⟩
      · exact h.unique i j w w' hold hold' hflight hflight' hsame
      · rcases hsame with haddress | hkey
        · exact absurd haddress (hfree.address i w hold hflight)
        · exact absurd hkey (hfree.key i w hold hflight)
    · rcases getElem?_concat_cases hw' with hold' | ⟨hj, rfl⟩
      · rcases hsame with haddress | hkey
        · exact absurd haddress.symm (hfree.address j w' hold' hflight')
        · exact absurd hkey.symm (hfree.key j w' hold' hflight')
      · rw [hi, hj]
  · intro i w hw hflight
    simp only [record]
    rcases getElem?_concat_cases hw with hold | ⟨-, rfl⟩
    · rw [lastDomain_cons_of_ne (hfree.address i w hold hflight).symm,
        lastAddress_cons_of_ne (hfree.key i w hold hflight).symm]
      exact h.newest i w hold hflight
    · exact ⟨lastDomain_cons_self, lastAddress_cons_self⟩

theorem Written.store (h : Written c) (hfree : Free c a d) :
    Written ((c.fakeIPStoreAsync a d).record ((a, d) :: c.log)) := by
  have hold_storing : ∀ (i : ℕ) (w : Writer), c.writers[i]? = some w →
      ((c.fakeIPStoreAsync a d).record ((a, d) :: c.log)).writers[i]? = some w :=
    fun i w hw => getElem?_append_of_some hw
  have hnew_storing : ((c.fakeIPStoreAsync a d).record ((a, d) :: c.log)).writers[c.writers.length]? =
      some ⟨a, d, .storing⟩ := by
    simp [record, fakeIPStoreAsync]
  constructor
  · intro b hb
    have hne : a ≠ b := hb _ _ hnew_storing rfl
    simp only [record, lastDomain_cons_of_ne hne]
    exact h.domain b fun i w hw => hb i w (hold_storing i w hw)
  · intro i w hw hstoring old hold
    simp only [record]
    rcases getElem?_concat_cases hw with hw | ⟨-, rfl⟩
    · refine (h.replaced i w hw hstoring old hold).imp_right fun hlast => ?_
      -- a goroutine in flight still has the domain its address had, so that domain is not the one stored
      rw [lastAddress_cons_of_ne, hlast]
      rintro hkey
      rw [← hkey] at hlast
      exact hfree.former _ hlast i w hw (inFlight_of_storing hstoring) rfl
    · have hbucket : c.bucketFakeIP a = lastDomain c.log a :=
        h.domain a fun i w hw hstoring => hfree.address i w hw (inFlight_of_storing hstoring)
      refine (hfree.unmoved old (hbucket.symm.trans hold)).imp_right fun hlast => ?_
      by_cases heq : old = d
      · rw [heq]
        exact lastAddress_cons_self
      · rw [lastAddress_cons_of_ne, hlast]
        exact fun hkey => heq (Prod.ext_iff.mp hkey).2.symm
  · intro k b hlast hdomain hnot
    simp only [record] at hlast hdomain
    have hk : (a.is4, d) ≠ k := hnot _ _ hnew_storing rfl
    rw [lastAddress_cons_of_ne hk] at hlast
    have hb : a ≠ b := by
      rintro rfl
      rw [lastDomain_cons_self] at hdomain
      exact hk (Prod.ext (mem_of_lastAddress hlast).2 (some.inj hdomain))
    rw [lastDomain_cons_of_ne hb] at hdomain
    exact h.address k b hlast hdomain fun i w hw => hnot i w (hold_storing i w hw)
  · intro k b hb
    obtain ⟨hmem, hfamily⟩ := h.logged k b hb
    exact ⟨mem_cons_of_mem _ hmem, hfamily⟩

theorem Sound.store (h : Sound c) (hfree : Free c a d) :
    Sound ((c.fakeIPStoreAsync a d).record ((a, d) :: c.log)) := by
  refine ⟨h.saving.store hfree, h.written.store hfree, ?_⟩
  intro l hl
  obtain ⟨old, hold, rfl⟩ := List.mem_map.mp hl
  apply (h.loads old hold).see rfl
  left
  cases old.query <;> rfl

end Stores

section Batches

theorem fakeIPStore_domain_self : (c.fakeIPStore a d).bucketFakeIPDomain (a.is4, d) = some a := update_self _ _ _

section Writers

variable (hw : c.writers[i]? = some w)
include hw

theorem Saving.move (h : Saving c) (phase : WriterPhase) (hflight : w.inFlight = true)
    (hphase : phase ≠ .done) (hdomain : c'.saveDomain = c.saveDomain) (haddress : c'.saveAddress = c.saveAddress)
    (hwriters : c'.writers = c.writers.set i { w with phase := phase }) (hlog : c'.log = c.log) : Saving c' := by
  have hflight' : w.inFlight = inFlight { w with phase := phase } := hflight.trans (by simp [inFlight, hphase])
  -- a writer of the new list is the old one at its index, with the same pair and in flight as it was
  have hback : ∀ (j : ℕ) (v : Writer), c'.writers[j]? = some v → v.inFlight = true →
      ∃ u, c.writers[j]? = some u ∧ u.inFlight = true ∧ u.address = v.address ∧ u.domain = v.domain := by
    intro j v hv hv'
    rw [hwriters] at hv
    rcases getElem?_set_cases hv with ⟨rfl, rfl⟩ | ⟨-, hold⟩
    · exact ⟨w, hw, hflight, rfl, rfl⟩
    · exact ⟨v, hold, hv', rfl, rfl⟩
  refine ⟨?_, indexes_saveAddress.mpr ?_, ?_, ?_⟩
  · rw [hdomain, hwriters]
    exact Indexes.set h.domain hw hflight' rfl rfl
  · rw [haddress, hwriters]
    exact (indexes_saveAddress.mp h.address).set hw hflight' rfl rfl
  · intro j j' v v' hv hv' hvf hvf' hsame
    obtain ⟨u, hu, huf, hua, hud⟩ := hback j v hv hvf
    obtain ⟨u', hu', huf', hua', hud'⟩ := hback j' v' hv' hvf'
    apply h.unique j j' u u' hu hu' huf huf'
    rw [key, key, hua, hud, hua', hud']
    exact hsame
  · intro j v hv hvf
    obtain ⟨u, hu, huf, hua, hud⟩ := hback j v hv hvf
    have hnewest := h.newest j u hu huf
    rw [key, hua, hud] at hnewest
    rw [hlog]
    exact hnewest

section

variable (h : Sound c) (hstoring : w.phase = .storing)
include h hstoring

theorem Sound.fakeIPStore_domain (hk : k ≠ w.key) :
    (c.fakeIPStore w.address w.domain).bucketFakeIPDomain k = c.bucketFakeIPDomain k ∨
      ((c.fakeIPStore w.address w.domain).bucketFakeIPDomain k = none ∧
        lastAddress c.log k = some w.address ∧ lastDomain c.log w.address ≠ some k.2) := by
  unfold key at hk
  simp only [fakeIPStore]
  rw [update_of_ne hk]
  cases hbucket : c.bucketFakeIP w.address with
  | none => exact .inl rfl
  | some old =>
    by_cases hold : k = (w.address.is4, old)
    · subst k
      refine .inr ⟨update_self _ _ _, ?_⟩
      have hne : old ≠ w.domain := fun heq => hk (by rw [heq])
      refine ⟨(h.written.replaced i w hw hstoring old hbucket).resolve_left hne, ?_⟩
      rw [(h.saving.newest i w hw (inFlight_of_storing hstoring)).1]
      exact fun heq => hne (some.inj heq).symm
    · exact .inl (update_of_ne hold _ _)

theorem Sound.batch_written : Written ((c.fakeIPStore w.address w.domain).moveWriter i w .stored) := by
  obtain ⟨hdomain, haddress⟩ := h.saving.newest i w hw (inFlight_of_storing hstoring)
  have hforth : ∀ (j : ℕ) (v : Writer), c.writers[j]? = some v → j ≠ i →
      (c.writers.set i { w with phase := .stored })[j]? = some v :=
    fun j v hv hj => (getElem?_set_ne hj.symm).trans hv
  constructor
  · intro b hb
    simp only [moveWriter, fakeIPStore]
    by_cases heq : b = w.address
    · rw [heq, update_self, hdomain]
    · rw [update_of_ne heq]
      apply h.written.domain b
      intro j v hv hvs
      by_cases hj : j = i
      · subst j
        cases hw.symm.trans hv
        exact Ne.symm heq
      · exact hb j v (hforth j v hv hj) hvs
  · intro j v hv hvs old hold
    obtain ⟨-, rfl⟩ | ⟨hj, hv⟩ := getElem?_set_cases hv
    · cases hvs
    · have hne : v.address ≠ w.address := by
        intro heq
        exact hj (h.saving.unique j i v w hv hw (inFlight_of_storing hvs) (inFlight_of_storing hstoring) (.inl heq))
      simp only [moveWriter, fakeIPStore] at hold
      rw [update_of_ne hne] at hold
      exact h.written.replaced j v hv hvs old hold
  · intro k b hlast hdom hnot
    change (c.fakeIPStore w.address w.domain).bucketFakeIPDomain k = some b
    by_cases hk : k = w.key
    · subst k
      cases haddress.symm.trans hlast
      exact fakeIPStore_domain_self
    · rcases h.fakeIPStore_domain hw hstoring hk with hsame | ⟨-, hformer, hgone⟩
      · rw [hsame]
        apply h.written.address k b hlast hdom
        intro j v hv hvs
        by_cases hj : j = i
        · subst j
          cases hw.symm.trans hv
          exact Ne.symm hk
        · exact hnot j v (hforth j v hv hj) hvs
      · cases hformer.symm.trans hlast
        exact absurd hdom hgone
  · intro k b hb
    change (c.fakeIPStore w.address w.domain).bucketFakeIPDomain k = some b at hb
    by_cases hk : k = w.key
    · subst k
      cases fakeIPStore_domain_self.symm.trans hb
      exact mem_of_lastAddress haddress
    · rcases h.fakeIPStore_domain hw hstoring hk with hsame | ⟨hnone, -⟩
      · exact h.written.logged k b (hsame ▸ hb)
      · rw [hnone] at hb
        cases hb

theorem Sound.batch_view (q : Query) : (c.fakeIPStore w.address w.domain).view q = c.view q ∨
      Accepts c.log q ((c.fakeIPStore w.address w.domain).view q) := by
  obtain ⟨hdomain, haddress⟩ := h.saving.newest i w hw (inFlight_of_storing hstoring)
  cases q with
  | domainOf b =>
    simp only [view, fakeIPStore]
    by_cases hb : b = w.address
    · subst hb
      rw [update_self]
      exact .inr hdomain.symm
    · rw [update_of_ne hb]
      exact .inl rfl
  | addressOf is4 e =>
    simp only [view]
    by_cases hk : (is4, e) = w.key
    · rw [hk, show w.key = (w.address.is4, w.domain) from rfl, fakeIPStore_domain_self]
      rw [← hk] at haddress
      refine .inr ⟨fun b hb _ => haddress.symm.trans hb, fun b hb => ?_⟩
      cases hb
      exact mem_of_lastAddress haddress
    · rcases h.fakeIPStore_domain hw hstoring hk with hsame | ⟨hnone, hformer, hgone⟩
      · exact .inl (congrArg Answer.address hsame)
      · rw [hnone]
        refine .inr ⟨fun b hb hdom => ?_, nofun⟩
        cases hformer.symm.trans hb
        exact absurd hdom hgone

end

theorem Sound.batch (h : Sound c) (hc : c.batch i w = some c') : Sound c' := by
  obtain ⟨hstoring, hc⟩ := ite_none_right_eq_some.mp hc
  cases hc
  refine ⟨?_, h.batch_written hw hstoring, fun l hl => ?_⟩
  · exact h.saving.move hw .stored (inFlight_of_storing hstoring) nofun rfl rfl rfl rfl
  · exact (h.loads l hl).keep rfl (h.batch_view hw hstoring l.query)

theorem Saving.finish (h : Saving c) (hflight : w.inFlight = true) :
    Saving ((c.forget w).moveWriter i w .done) := by
  have hback : ∀ (j : ℕ) (v : Writer), (c.writers.set i { w with phase := .done })[j]? = some v →
      v.inFlight = true → c.writers[j]? = some v := by
    intro j v hv hvf
    rcases getElem?_set_cases hv with ⟨-, rfl⟩ | hold
    · cases hvf
    · exact hold.2
  refine ⟨Indexes.erase h.domain hw rfl fun j v hv hvf hsame => h.unique j i v w hv hw hvf hflight (.inl hsame),
    indexes_saveAddress.mpr ((indexes_saveAddress.mp h.address).erase hw rfl fun j v hv hvf hsame =>
      h.unique j i v w hv hw hvf hflight (.inr hsame)), ?_, ?_⟩
  · intro j j' v v' hv hv' hvf hvf' hsame
    exact h.unique j j' v v' (hback j v hv hvf) (hback j' v' hv' hvf') hvf hvf' hsame
  · intro j v hv hvf
    exact h.newest j v (hback j v hv hvf) hvf

theorem Written.move (h : Written c) (phase : WriterPhase) (hold : w.phase ≠ .storing)
    (hnew : phase ≠ .storing) (hwriters : c'.writers = c.writers.set i { w with phase := phase })
    (hbucket : c'.bucketFakeIP = c.bucketFakeIP) (hdomain : c'.bucketFakeIPDomain = c.bucketFakeIPDomain)
    (hlog : c'.log = c.log) : Written c' := by
  have hiff : ∀ (j : ℕ) (v : Writer), v.phase = .storing → (c'.writers[j]? = some v ↔ c.writers[j]? = some v) := by
    intro j v hvs
    rw [hwriters]
    constructor
    · intro hv
      rcases getElem?_set_cases hv with ⟨-, rfl⟩ | ⟨-, hv⟩
      · exact absurd hvs hnew
      · exact hv
    · intro hv
      refine (getElem?_set_ne ?_).trans hv
      rintro rfl
      cases hw.symm.trans hv
      exact hold hvs
  constructor
  · intro b hb
    rw [hbucket, hlog]
    exact h.domain b fun j v hv hvs => hb j v ((hiff j v hvs).mpr hv) hvs
  · intro j v hv hvs
    rw [hbucket, hlog]
    exact h.replaced j v ((hiff j v hvs).mp hv) hvs
  · intro k b
    rw [hdomain, hlog]
    intro hlast hdom hnot
    exact h.address k b hlast hdom fun j v hv hvs => hnot j v ((hiff j v hvs).mpr hv) hvs
  · intro k b
    rw [hdomain, hlog]
    exact h.logged k b

theorem Sound.finish (h : Sound c) (hc : c.finish i w = some c') : Sound c' := by
  obtain ⟨hstored, hc⟩ := ite_none_right_eq_some.mp hc
  cases hc
  refine ⟨h.saving.finish hw (by simp [inFlight, hstored]), ?_, fun l hl => ?_⟩
  · refine h.written.move hw .done ?_ nofun rfl rfl rfl rfl
    simp [hstored]
  · apply (h.loads l hl).congr rfl
    cases l.query <;> rfl

end Writers

section

variable (h : Sound c) (hidle : c.writers.all (!·.inFlight) = true)
include hidle

theorem not_inFlight_of_idle (hw : c.writers[i]? = some w) (hflight : w.inFlight = true) : False := by
  have hdone := List.all_eq_true.mp hidle w (mem_of_getElem? hw)
  rw [hflight] at hdone
  cases hdone

include h

theorem Sound.reset : Sound (c.fakeIPReset.record []) := by
  refine ⟨⟨h.saving.domain, h.saving.address, h.saving.unique, fun j v hv hvf => (not_inFlight_of_idle hidle hv hvf).elim⟩,
    ⟨fun _ _ => rfl, nofun, nofun, nofun⟩, fun l hl => ?_⟩
  obtain ⟨old, hold, rfl⟩ := List.mem_map.mp hl
  apply (h.loads old hold).see rfl
  right
  cases old.query with
  | domainOf b => rfl
  | addressOf is4 e => exact ⟨nofun, nofun⟩

theorem Sound.reopen : Sound c.reopen := by
  have hnone : ∀ (j : ℕ) (v : Writer), c.writers[j]? = some v → v.phase ≠ .storing := fun j v hv hvs =>
    not_inFlight_of_idle hidle hv (inFlight_of_storing hvs)
  refine ⟨saving_nothing rfl rfl rfl, ⟨fun a _ => ?_, nofun, fun k a hlast hdomain _ => ?_, h.written.logged⟩, nofun⟩
  · exact h.written.domain a fun j v hv hvs => absurd hvs (hnone j v hv)
  · exact h.written.address k a hlast hdomain fun j v hv hvs => absurd hvs (hnone j v hv)

end

end Batches

theorem Sound.step {act : Step} (h : Sound c) (hmet : c.careful act = true) (hc : c.step act = some c') : Sound c' := by
  cases act with
  | storeAsync a d =>
    obtain ⟨-, hc⟩ := ite_none_left_eq_some.mp hc
    cases hc
    exact h.store (free_of_careful hmet)
  | batch i =>
    obtain ⟨w, hw, hc⟩ := bind_eq_some_iff.mp hc
    exact h.batch hw hc
  | finish i =>
    obtain ⟨w, hw, hc⟩ := bind_eq_some_iff.mp hc
    exact h.finish hw hc
  | reset =>
    cases hc
    exact h.reset hmet
  | restart =>
    cases hc
    exact h.reopen hmet
  | call q =>
    cases hc
    exact h.call
  | lookup j =>
    obtain ⟨l, hl, hc⟩ := bind_eq_some_iff.mp hc
    exact h.lookup hl hc
  | view j =>
    obtain ⟨l, hl, hc⟩ := bind_eq_some_iff.mp hc
    exact h.viewStep hl hc

theorem loads_latest {acts : List Step} (h : Run step (careful · ·) start acts c) :
    (∀ q, Accepts c.log q (c.load q)) ∧
      ∀ l ∈ c.loads, ∀ answer, l.phase = .returned answer → ∃ log ∈ l.seen, Accepts log l.query answer := by
  have hsound : Sound c := h.invariant .step sound_start
  refine ⟨hsound.accepts_load, fun l hl answer hanswer => ?_⟩
  have hload := hsound.loads l hl
  rw [Load.Sound, hanswer] at hload
  exact hload

theorem loads_latest_reused : ∃ c, Run step (careful · ·) start
    [.storeAsync (.v4 1) "a", .batch 0, .finish 0, .restart, .call (.domainOf (.v4 1)), .storeAsync (.v4 1) "b",
      .lookup 0] c ∧
    (∀ q, Accepts c.log q (c.load q)) ∧ c.load (.domainOf (.v4 1)) = .domain (some "b") := by
  refine (Run.exists_of_decideWhile ?_).imp fun c ⟨hrun, hc⟩ => ⟨hrun, (loads_latest hrun).1, hc⟩
  decide +kernel

theorem loads_not_latest :
    (∃ c, Run step anyStep start [.storeAsync (.v4 1) "a", .storeAsync (.v4 1) "b", .batch 1, .finish 1, .batch 0,
      .finish 0] c ∧ lastDomain c.log (.v4 1) = some "b" ∧ c.load (.domainOf (.v4 1)) = .domain (some "a")) ∧
    (∃ c, Run step anyStep start [.storeAsync (.v4 1) "a", .batch 0, .finish 0, .storeAsync (.v4 2) "a", .batch 1,
      .finish 1, .storeAsync (.v4 1) "b", .batch 2, .finish 2] c ∧ lastAddress c.log (true, "a") = some (.v4 2) ∧
      lastDomain c.log (.v4 2) = some "a" ∧ c.load (.addressOf true "a") = .address none) ∧
    ∃ c, Run step anyStep start [.storeAsync (.v4 1) "a", .reset] c ∧ c.log = [] ∧
      c.load (.domainOf (.v4 1)) = .domain (some "a") := by
  refine ⟨Run.exists_of_decide ?_, Run.exists_of_decide ?_, Run.exists_of_decide ?_⟩
  all_goals decide +kernel

end CacheFile

end Hydracore.Cachefile
