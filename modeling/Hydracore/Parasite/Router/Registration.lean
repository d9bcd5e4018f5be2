import Hydracore.Parasite.Router.Moves

namespace Hydracore.Parasite.Router

open Formats Systems Datagram Option

variable {Addr : Type} {S : AddrSerializer Addr} {valid : Addr → Bool}

structure Keyed (s : State Addr) : Prop where
  keyed : ∀ id ref, s.shared.associations.lookup id = some ref → ∃ a, s.shared.heap[ref]? = some a ∧ a.id = id
  shutting : .shutting ∈ s.calls → s.shared.closed = true

def Registered (s : State Addr) : Prop :=
  s.shared.closed = false → ∀ ref a, s.shared.heap[ref]? = some a → s.live ref = true →
    s.shared.associations.lookup a.id = some ref

section

variable {s t : State Addr} {a : Action Addr}

theorem Keyed.step (hk : Keyed s) (h : Onward s t) : Keyed t where
  keyed id ref hlookup := by
    rcases h.origin id ref hlookup with hlookup | hassoc
    · obtain ⟨b, hb, rfl⟩ := hk.keyed id ref hlookup
      obtain ⟨b', hb', hid, -⟩ := h.ages ref b hb
      exact ⟨b', hb', hid⟩
    · exact hassoc
  shutting hmem := by
    rcases h.shutting hmem with hmem | hclosed
    · exact h.closed (hk.shutting hmem)
    · exact hclosed

theorem Onward.open_of_open (h : Onward s t) (hopen : t.shared.closed = false) : s.shared.closed = false := by
  by_contra hclosed
  have := h.closed (by simpa using hclosed)
  simp [hopen] at this

theorem Onward.live_of_live (h : Onward s t) {ref : ℕ} {b : Association Addr} (hb : s.shared.heap[ref]? = some b)
    (hlive : t.live ref = true) : s.live ref = true ∧ ∃ b', t.shared.heap[ref]? = some b' ∧ b'.id = b.id := by
  obtain ⟨⟨c, hc, hopen⟩, hspared⟩ := live_iff.mp hlive
  obtain ⟨b', hb', hid, hback⟩ := h.ages ref b hb
  cases hc.symm.trans hb'
  refine ⟨live_iff.mpr ⟨⟨b, hb, hback hopen⟩, fun hdoomed => ?_⟩, c, hc, hid⟩
  rcases h.doomed ref hdoomed with hdoomed | hclosed
  · exact hspared hdoomed
  · rw [hclosed c hc] at hopen
    cases hopen

theorem spared_of_lookup {id : UInt64} {ref : ℕ} (hopen : s.shared.closed = false)
    (hlookup : s.shared.associations.lookup id = some ref) : s.spared id = !s.live ref := by
  simp [State.spared, hopen, hlookup]

theorem Stepped.registered_of_spares (hst : Stepped s a t) (h : Onward s t) (hr : Registered s)
    (hspares : spares s a = true) : Registered t := by
  intro hopen ref b hb hlive
  have hsopen := h.open_of_open hopen
  have hheld {b₀ : Association Addr} (hb₀ : s.shared.heap[ref]? = some b₀) :
      s.live ref = true ∧ s.shared.associations.lookup b.id = some ref := by
    obtain ⟨hslive, b', hb', hid⟩ := h.live_of_live hb₀ hlive
    cases hb.symm.trans hb'
    exact ⟨hslive, hid ▸ hr hsopen ref b₀ hb₀ hslive⟩
  cases hst with
  | quiet map size spares =>
    have hlt := getElem?_lt hb
    rw [map]
    exact (hheld (List.getElem?_eq_getElem (size ▸ hlt))).2
  | registered assoc map heap closed calls hspared =>
    rw [map]
    rw [heap] at hb
    rcases Nat.lt_or_ge ref s.shared.heap.length with hlt | hge
    · obtain ⟨hslive, hlookup⟩ := hheld (List.getElem?_eq_getElem hlt)
      have hne : b.id ≠ assoc.id := by
        intro hid
        rw [hspared, spared_of_lookup hsopen (hid ▸ hlookup), hslive] at hspares
        cases hspares
      exact (AList.lookup_insert_ne hne).trans hlookup
    · rw [List.getElem?_append_right hge] at hb
      have hzero : ref - s.shared.heap.length = 0 := by
        have := getElem?_lt hb
        simpa using this
      rw [hzero] at hb
      cases hb
      rw [AList.lookup_insert, Nat.le_antisymm (Nat.sub_eq_zero_iff_le.mp hzero) hge]
  | removed id map heap closed calls hspared =>
    rw [heap] at hb
    obtain ⟨hslive, hlookup⟩ := hheld hb
    have hne : b.id ≠ id := by
      rintro rfl
      rw [hspared, spared_of_lookup hsopen hlookup, hslive] at hspares
      cases hspares
    rw [map]
    exact (AList.lookup_erase_ne hne).trans hlookup
  | swept heap kept spares =>
    rw [heap] at hb
    rcases kept b.id ref (hheld hb).2 with hlookup | hdoomed
    · exact hlookup
    · exact absurd hdoomed (live_iff.mp hlive).2
  | ended closed spares =>
    rw [closed] at hopen
    cases hopen

theorem lookup_of_not_spared {id : UInt64} (h : s.spared id = false) :
    s.shared.closed = false ∧ ∃ ref, s.shared.associations.lookup id = some ref ∧ s.live ref = true := by
  simpa [State.spared, all_eq_false] using h

theorem Stepped.spares_of_registered (hst : Stepped s a t) (hk : Keyed s) (hr : Registered t) :
    spares s a = true := by
  cases hst with
  | quiet map size spares | swept heap kept spares | ended closed spares => exact spares
  | registered assoc map heap closed calls hspared =>
    rw [hspared]
    by_contra hnot
    obtain ⟨hopen, ref, hlookup, hlive⟩ := lookup_of_not_spared (by simpa using hnot)
    obtain ⟨b, hb, hid⟩ := hk.keyed _ ref hlookup
    have hlt := getElem?_lt hb
    have hb' : t.shared.heap[ref]? = some b := by rw [heap, List.getElem?_append_left hlt, hb]
    obtain ⟨⟨c, hc, hcopen⟩, hspared'⟩ := live_iff.mp hlive
    cases hb.symm.trans hc
    have hreg := hr (closed.trans hopen) ref b hb'
      (live_iff.mpr ⟨⟨b, hb', hcopen⟩, fun hd => hspared' (calls ref hd)⟩)
    rw [map, hid, AList.lookup_insert] at hreg
    exact absurd (some.inj hreg) (Nat.ne_of_gt hlt)
  | removed id map heap closed calls hspared =>
    rw [hspared]
    by_contra hnot
    obtain ⟨hopen, ref, hlookup, hlive⟩ := lookup_of_not_spared (by simpa using hnot)
    obtain ⟨b, hb, hid⟩ := hk.keyed _ ref hlookup
    obtain ⟨hbopen, hspared'⟩ := live_iff.mp hlive
    have hreg := hr (closed.trans hopen) ref b (heap ▸ hb)
      (live_iff.mpr ⟨heap ▸ hbopen, fun hd => hspared' (calls ref hd)⟩)
    rw [map, hid, AList.lookup_erase] at hreg
    cases hreg

end

def Reached (S : AddrSerializer Addr) (valid : Addr → Bool) (s : State Addr) : Prop :=
  s.shared.closed = false → ∀ ref a, s.shared.heap[ref]? = some a → s.live ref = true →
    s.shared.associations.lookup a.id = some ref ∧
    ∀ raw frame conn now, parseDatagramFrame S raw = some frame → frame.associationID = a.id →
      ∃ t, exec (step S valid) s [.routeReceivedDatagram raw conn, .deliver s.calls.length now] = some t ∧
        t.shared = s.shared.modify ref (.deliverFragment now frame)

theorem reached_iff_registered {s : State Addr} : Reached S valid s ↔ Registered s := by
  constructor
  · intro h hopen ref a ha hlive
    exact (h hopen ref a ha hlive).1
  · intro h hopen ref a ha hlive
    have hlookup := h hopen ref a ha hlive
    refine ⟨hlookup, fun raw frame conn now hparse hid => ?_⟩
    have hroute : step S valid s (.routeReceivedDatagram raw conn) =
        some { s with calls := s.calls ++ [.delivering frame ref] } := by
      rw [← hid] at hlookup
      simp only [step, hparse, hlookup]
    refine ⟨⟨s.shared.modify ref (.deliverFragment now frame), s.calls ++ [.returned]⟩, ?_, rfl⟩
    simp only [exec, hroute, bind_some]
    simp [step]

theorem keyed_exec {as : List (Action Addr)} {t : State Addr} (h : exec (step S valid) .initial as = some t) :
    Keyed t :=
  (Run.of_exec h).invariant (fun hs _ hv => hs.step (step_cases hs.shutting hv).1)
    ⟨fun _ _ h => by simp [State.initial] at h, fun h => absurd h List.not_mem_nil⟩

theorem registered_initial : Registered (State.initial : State Addr) := by
  intro _ ref a ha
  simp [State.initial] at ha

theorem live_association_registered (S : AddrSerializer Addr) (valid : Addr → Bool) (as : List (Action Addr))
    (u : State Addr) (h : exec (step S valid) .initial as = some u) :
    (∀ bs t, bs <+: as → exec (step S valid) .initial bs = some t → Reached S valid t) ↔
      execWhile (step S valid) spares .initial as = some u := by
  induction as using List.reverseRecOn generalizing u with
  | nil =>
    cases h
    refine ⟨fun _ => rfl, fun _ bs t hbs ht => ?_⟩
    rw [List.prefix_nil.mp hbs] at ht
    exact Option.some.inj ht ▸ reached_iff_registered.mpr registered_initial
  | append_singleton as a ih =>
    have hwhole := h
    rw [exec_concat] at h
    obtain ⟨s, hs, hstep⟩ := Option.bind_eq_some_iff.mp h
    have hk := keyed_exec hs
    obtain ⟨honward, hstepped⟩ := step_cases hk.shutting hstep
    rw [execWhile_concat]
    constructor
    · intro hall
      have hbefore := (ih s hs).mp fun bs t hbs => hall bs t (hbs.trans (List.prefix_append as [a]))
      have hr := reached_iff_registered.mp (hall _ u (List.prefix_refl _) hwhole)
      rw [hbefore, Option.bind_some, if_pos (hstepped.spares_of_registered hk hr)]
      exact hstep
    · intro hcond bs t hbs ht
      obtain ⟨s', hs', hlast⟩ := Option.bind_eq_some_iff.mp hcond
      split_ifs at hlast with hspares
      cases hs.symm.trans (exec_of_execWhile hs')
      have hpre := (ih s hs).mpr hs'
      rcases List.prefix_concat_iff.mp hbs with rfl | hbs
      · cases hwhole.symm.trans ht
        have hr := reached_iff_registered.mp (hpre as s (List.prefix_refl _) hs)
        exact reached_iff_registered.mpr (hstepped.registered_of_spares honward hr hspares)
      · exact hpre bs t hbs ht

def datagramOfOne : Bytes := [1, 1, 10, 0, 0, 1, 0, 53, 1, 1, 0, 42]

def accepted : List (Action IPv4AddrPort) :=
  [.setAcceptHandler, .routeReceivedDatagram datagramOfOne 0, .proceed 0, .proceed 0, .deliver 0 0, .closeConn 0 [1]]

def reopened : List (Action IPv4AddrPort) :=
  accepted ++ [Action.proceed 1, .proceed 1, .proceed 1, .routeReceivedDatagram datagramOfOne 1, .proceed 2, .proceed 2]

theorem live_association_registered_reopened : ∃ u,
    exec (step ipv4Serializer fun _ => true) .initial reopened = some u ∧ u.live 1 = true ∧
      Reached ipv4Serializer (fun _ => true) u := by
  obtain ⟨u, hu, hlive⟩ := exists_some_of_decide (P := fun u => u.live 1 = true)
    (o := execWhile (step ipv4Serializer fun _ => true) spares .initial reopened) (by decide +kernel)
  have hexec := exec_of_execWhile hu
  exact ⟨u, hexec, hlive, (live_association_registered _ _ reopened u hexec).mpr hu _ u (List.prefix_refl _) hexec⟩

def overtaken : List (Action IPv4AddrPort) :=
  accepted ++ [Action.routeReceivedDatagram datagramOfOne 0, .proceed 2, .proceed 2, .deliver 2 1, .proceed 1, .proceed 1]

theorem live_association_unregistered : ∃ u v,
    exec (step ipv4Serializer fun _ => true) .initial overtaken = some u ∧ u.shared.closed = false ∧
      u.live 1 = true ∧ (u.shared.heap[1]?).map Association.id = some 1 ∧ u.shared.associations.lookup 1 = none ∧
    exec (step ipv4Serializer fun _ => true) u
        [.routeReceivedDatagram datagramOfOne 0, .proceed 3, .proceed 3] = some v ∧
      v.shared.associations.lookup 1 = some 2 ∧ v.live 1 = true := by
  refine (exists_pair_of_decide (P := fun u v => (u.shared.closed = false ∧ u.live 1 = true ∧
    (u.shared.heap[1]?).map Association.id = some 1 ∧ u.shared.associations.lookup 1 = none) ∧
    v.shared.associations.lookup 1 = some 2 ∧ v.live 1 = true) ?_).imp fun u => Exists.imp fun v
      ⟨hu, hv, ⟨hopen, hlive, hid, hlookup⟩, hsecond⟩ => ⟨hu, hopen, hlive, hid, hlookup, hv, hsecond⟩
  decide +kernel

end Hydracore.Parasite.Router
