import Hydracore.Parasite.Server.Table

namespace Hydracore.Parasite.Server

open Formats Systems Dict List Function

namespace Table

def sessionsOf (t : Table) (user : Bytes) : ℕ := t.sessions.count (fun _ r => (t.heap r).user = user)

structure Accounted (o : Options) (t : Table) : Prop where
  keyed : ∀ id r, t.sessions.lookup id = some r → (t.heap r).id = id ∧ r < t.fresh
  counted : ∀ user, t.userCount user = t.sessionsOf user
  total : t.sessions.size ≤ o.maxSessions
  limited : ∀ user, t.sessionsOf user ≤ o.userLimit user

theorem accounted_clear (o : Options) (t : Table) : Accounted o t.clear where
  keyed := by intro id r hr; simp [clear] at hr
  counted := by intro user; simp [clear, userCount, sessionsOf]
  total := by simp [clear]
  limited := by intro user; simp [clear, sessionsOf]

variable {o : Options} {t t' : Table} {id : SessionID} {r : ℕ} {req : AuthRequest} {user : Bytes}

theorem sessionsOf_congr (hs : t'.sessions = t.sessions)
    (hu : ∀ r, (t'.heap r).user = (t.heap r).user) (user : Bytes) : t'.sessionsOf user = t.sessionsOf user := by
  simp only [sessionsOf, hs, hu]

theorem modify_field {β : Type} (g : Session → β) (f : Session → Session) (hf : ∀ s, g (f s) = g s)
    (t : Table) (r q : ℕ) : g ((t.modify r f).heap q) = g (t.heap q) := by
  by_cases hq : q = r
  · subst q
    simp [modify, hf]
  · simp [modify, hq]

theorem lookup_lowered (m : Dict Bytes ℤ) (user v : Bytes) (c : Prop) [Decidable c] (k : ℤ) :
    ((if c then m.erase user else m.insert user k).lookup v).getD 0 =
      if v = user then (if c then 0 else k) else (m.lookup v).getD 0 := by
  by_cases hv : v = user
  · subst v
    by_cases hc : c <;> simp [hc]
  · by_cases hc : c <;> simp [hc, hv, AList.lookup_erase_ne hv, AList.lookup_insert_ne hv]

theorem sessionsOf_erase (hr : t.sessions.lookup id = some r) (user : Bytes) :
    ({ t with sessions := t.sessions.erase id } : Table).sessionsOf user +
      (if (t.heap r).user = user then 1 else 0) = t.sessionsOf user := by
  simpa [sessionsOf] using count_erase hr (fun _ q => decide ((t.heap q).user = user))

theorem userCount_unregister (t : Table) (id : SessionID) (user v : Bytes) : (t.unregister id user).userCount v =
      if v = user then (if t.userCount user ≤ 1 then 0 else t.userCount user - 1) else t.userCount v :=
  lookup_lowered t.userSessions user v _ _

theorem joinSession_joined (hj : t.joinSession req r = (t', none)) :
    t.sessions.lookup req.sessionID = some r ∧ (t.heap r).setupErr = none ∧
      t' = t.modify r (fun s => { s with pendingAttaches := s.pendingAttaches + 1 }) := by
  unfold joinSession at hj
  split_ifs at hj with hl
  · simp at hj
  · split at hj
    · simp at hj
    · rename_i herr
      simp only [Prod.mk.injEq, and_true] at hj
      exact ⟨not_not.mp hl, herr, hj.symm⟩

theorem deleteUnattached_some (hd : t.deleteUnattached id r = some t') :
    t.sessions.lookup id = some r ∧ (t.heap r).pendingAttaches = 0 ∧ (t.heap r).relay.paths = [] ∧
      t' = t.unregister id (t.heap r).user := by
  unfold deleteUnattached at hd
  cases hl : t.sessions.lookup id with
  | none => simp [hl] at hd
  | some q =>
    simp only [hl] at hd
    split_ifs at hd with hbusy
    simp only [not_or, not_not] at hbusy
    obtain ⟨rfl, hp, hpaths⟩ := hbusy
    exact ⟨rfl, hp, length_eq_zero_iff.mp hpaths, (Option.some.inj hd).symm⟩

structure Evicted (user : Bytes) (t t' : Table) (gone : List ℕ) : Prop where
  heap : t'.heap = t.heap
  fresh : t'.fresh = t.fresh
  kept : ∀ id r, t'.sessions.lookup id = some r → t.sessions.lookup id = some r ∧ r ∉ gone
  still : ∀ id r, t.sessions.lookup id = some r → r ∉ gone → t'.sessions.lookup id = some r
  spare : ∀ r ∈ gone, (t.heap r).pendingAttaches = 0 ∧ (t.heap r).ready = true ∧
    t.sessions.lookup (t.heap r).id = some r
  size : t'.sessions.size + gone.length = t.sessions.size
  counts : ∀ v, t'.sessionsOf v + (if v = user then gone.length else 0) = t.sessionsOf v

theorem Evicted.refl (user : Bytes) (t : Table) : Evicted user t t [] where
  heap := rfl
  fresh := rfl
  kept := by intro id r h; exact ⟨h, nofun⟩
  still := by intro id r h _; exact h
  spare := by intro r h; simp at h
  size := by simp
  counts := by intro v; simp

theorem Evicted.cons {gone : List ℕ}
    (hk : ∀ id r, t.sessions.lookup id = some r → (t.heap r).id = id) (hr : t.sessions.lookup id = some r)
    (hu : (t.heap r).user = user) (hp : (t.heap r).pendingAttaches = 0) (hready : (t.heap r).ready = true)
    (h : Evicted user { t with sessions := t.sessions.erase id } t' gone) : Evicted user t t' (r :: gone) where
  heap := h.heap
  fresh := h.fresh
  kept := by
    intro id' r' h'
    obtain ⟨herase, hgone⟩ := h.kept id' r' h'
    obtain ⟨hne, hold⟩ := lookup_erase_some herase
    refine ⟨hold, ?_⟩
    rw [mem_cons, not_or]
    -- one session under two keys would have both as its id
    exact ⟨fun he => hne ((hk id' r' hold).symm.trans (he ▸ hk id r hr)), hgone⟩
  still := by
    intro id' r' h' hgone
    rw [mem_cons, not_or] at hgone
    have hne : id' ≠ id := by
      rintro rfl
      exact hgone.1 (Option.some.inj (h'.symm.trans hr))
    exact h.still id' r' ((AList.lookup_erase_ne hne).trans h') hgone.2
  spare := by
    intro r' hmem
    rcases mem_cons.mp hmem with rfl | hmem
    · exact ⟨hp, hready, (hk id r' hr).symm ▸ hr⟩
    · obtain ⟨hp', hready', hl⟩ := h.spare r' hmem
      exact ⟨hp', hready', (lookup_erase_some hl).2⟩
  size := by
    have hsize := h.size
    have herase := size_erase hr
    rw [length_cons]
    dsimp only at hsize
    omega
  counts := by
    intro v
    have hv := h.counts v
    have herase := sessionsOf_erase hr v
    rw [hu] at herase
    rw [length_cons]
    by_cases hvu : v = user
    · rw [if_pos hvu] at hv ⊢
      rw [if_pos hvu.symm] at herase
      omega
    · rw [if_neg hvu] at hv ⊢
      rw [if_neg (Ne.symm hvu)] at herase
      omega

theorem evictLoop_spec (user : Bytes) (needed : ℤ) (order : List SessionID) (t : Table) (evicted : List ℕ)
    (hk : ∀ id r, t.sessions.lookup id = some r → (t.heap r).id = id) :
    ∃ t' gone, evictLoop user needed order t evicted = (t', evicted ++ gone) ∧ Evicted user t t' gone ∧
      t'.userSessions = t.userSessions := by
  induction order generalizing t evicted with
  | nil => exact ⟨t, [], by simp [evictLoop], .refl user t, rfl⟩
  | cons id rest ih =>
    unfold evictLoop
    cases hr : t.sessions.lookup id with
    | none => exact ih t evicted hk
    | some r =>
      by_cases hskip : needed ≤ evicted.length ∨ (t.heap r).user ≠ user ∨ (t.heap r).pendingAttaches ≠ 0
      · simp only [if_pos hskip]
        exact ih t evicted hk
      · simp only [if_neg hskip]
        by_cases hready : (t.heap r).ready = true
        · simp only [if_pos hready]
          obtain ⟨t', gone, heq, hev, hcounts⟩ := ih { t with sessions := t.sessions.erase id } (evicted ++ [r])
            (fun id' r' h' => hk id' r' (lookup_erase_some h').2)
          simp only [not_or, not_not] at hskip
          refine ⟨t', r :: gone, ?_, hev.cons hk hr hskip.2.1 hskip.2.2 hready, hcounts⟩
          rw [heq, append_assoc, singleton_append]
        · simp only [if_neg hready]
          exact ih t evicted hk

variable (h : Accounted o t)

include h

theorem Accounted.congr (hs : t'.sessions = t.sessions) (hc : t'.userSessions = t.userSessions)
    (hf : t'.fresh = t.fresh)
    (hu : ∀ r, (t'.heap r).user = (t.heap r).user) (hi : ∀ r, (t'.heap r).id = (t.heap r).id) : Accounted o t' where
  keyed := by
    intro id r hr
    rw [hi, hf]
    exact h.keyed id r (hs ▸ hr)
  counted := by
    intro user
    rw [sessionsOf_congr hs hu, ← h.counted, userCount, userCount, hc]
  total := hs ▸ h.total
  limited := by
    intro user
    rw [sessionsOf_congr hs hu]
    exact h.limited user

theorem Accounted.modify (r : ℕ) {f : Session → Session} (hu : ∀ s, (f s).user = s.user) (hi : ∀ s, (f s).id = s.id) : Accounted o (t.modify r f) :=
  h.congr rfl rfl rfl (modify_field Session.user f hu t r) (modify_field Session.id f hi t r)

theorem Accounted.unregister (hr : t.sessions.lookup id = some r) (hu : (t.heap r).user = user) :
    Accounted o (t.unregister id user) where
  keyed := fun id' r' h' => h.keyed id' r' (lookup_erase_some h').2
  counted := by
    intro v
    have he : (t.unregister id user).sessionsOf v + _ = _ := sessionsOf_erase hr v
    have hv := h.counted v
    have hself := h.counted user
    have hpos : 0 < t.sessionsOf user := count_pos hr (by simp [hu])
    rw [userCount_unregister]
    rw [hu] at he
    by_cases hvu : v = user
    · subst v
      rw [if_pos rfl] at he ⊢
      split_ifs <;> omega
    · rw [if_neg (Ne.symm hvu)] at he
      rw [if_neg hvu]
      omega
  total := by
    have hsize : (t.unregister id user).sessions.size + 1 = _ := size_erase hr
    have := h.total
    omega
  limited := by
    intro v
    have he : (t.unregister id user).sessionsOf v + _ = _ := sessionsOf_erase hr v
    have := h.limited v
    omega

theorem sessionsOf_register {s : Session} (hn : t.sessions.lookup s.id = none) (user : Bytes) :
    (t.register s).sessionsOf user = t.sessionsOf user + if s.user = user then 1 else 0 := by
  have hins := count_insert hn t.fresh (fun _ r => decide ((update t.heap t.fresh s r).user = user))
  have hold : t.sessions.count (fun _ r => decide ((update t.heap t.fresh s r).user = user)) =
      t.sessionsOf user := by
    apply count_congr
    intro id r hr
    have hne : r ≠ t.fresh := Nat.ne_of_lt (h.keyed id r hr).2
    rw [update_of_ne hne]
  rw [hold] at hins
  simp only [update_self, decide_eq_true_eq] at hins
  exact hins

theorem Accounted.register {s : Session} (hn : t.sessions.lookup s.id = none)
    (hroom : t.sessions.size < o.maxSessions) (hlimit : t.userCount s.user < o.userLimit s.user) :
    Accounted o (t.register s) where
  keyed := by
    intro id r hr
    simp only [Table.register] at hr ⊢
    rcases lookup_insert_some hr with ⟨rfl, rfl⟩ | ⟨hne, hold⟩
    · simp
    · obtain ⟨hid, hlt⟩ := h.keyed id r hold
      rw [update_of_ne (Nat.ne_of_lt hlt)]
      exact ⟨hid, by omega⟩
  counted := by
    intro user
    rw [sessionsOf_register h hn]
    have hv := h.counted user
    change ((t.userSessions.insert s.user (t.userCount s.user + 1)).lookup user).getD 0 = _
    by_cases hu : user = s.user
    · subst user
      rw [AList.lookup_insert, if_pos rfl, Option.getD_some]
      omega
    · rw [AList.lookup_insert_ne hu, if_neg (Ne.symm hu)]
      exact hv
  total := by
    have hsize : (t.register s).sessions.size = _ := size_insert hn t.fresh
    omega
  limited := by
    intro user
    rw [sessionsOf_register h hn]
    have hv := h.limited user
    have hs := h.counted s.user
    split_ifs with hu
    · subst hu
      omega
    · exact hv

theorem Evicted.accounted {gone : List ℕ} (hev : Evicted user t t' gone)
    (hcounts : ∀ v, t'.userCount v = t'.sessionsOf v) : Accounted o t' where
  keyed := by
    intro id r hr
    rw [hev.heap, hev.fresh]
    exact h.keyed id r (hev.kept id r hr).1
  counted := hcounts
  total := by
    have := hev.size
    have := h.total
    omega
  limited := by
    intro v
    have := hev.counts v
    have := h.limited v
    omega

theorem evict_spec (user : Bytes) (maxSessions : ℕ) (order : List SessionID) :
    ∃ t' gone, t.evictSupersededUserSessionsLocked user maxSessions order = (t', gone) ∧
      Evicted user t t' gone ∧ Accounted o t' := by
  obtain ⟨t₁, gone, heq, hev, hmap⟩ := evictLoop_spec user (max 1 (t.userCount user - maxSessions + 1)) order t []
    (fun id r hr => (h.keyed id r hr).1)
  rw [nil_append] at heq
  have hsame : ∀ v, t₁.userCount v = t.sessionsOf v := by
    intro v
    rw [← h.counted v, userCount, hmap, userCount]
  unfold evictSupersededUserSessionsLocked
  simp only [heq]
  by_cases hgone : gone.length > 0
  · rw [if_pos hgone]
    have hev' (counts : Dict Bytes ℤ) : Evicted user t { t₁ with userSessions := counts } gone :=
      ⟨hev.heap, hev.fresh, hev.kept, hev.still, hev.spare, hev.size, hev.counts⟩
    refine ⟨_, gone, rfl, hev' _, (hev' _).accounted h fun v => ?_⟩
    have hv := hsame v
    have hself := hsame user
    have hc := hev.counts v
    have hcu := hev.counts user
    have hlow := lookup_lowered t₁.userSessions user v (t₁.userCount user - gone.length ≤ 0)
      (t₁.userCount user - gone.length)
    refine hlow.trans ?_
    change _ = ((t₁.sessionsOf v : ℕ) : ℤ)
    by_cases hvu : v = user
    · subst v
      rw [if_pos rfl] at hc ⊢
      split_ifs <;> omega
    · rw [if_neg hvu] at hc ⊢
      change t₁.userCount v = _
      omega
  · rw [if_neg hgone]
    refine ⟨t₁, gone, rfl, hev, hev.accounted h ?_⟩
    intro v
    have hc := hev.counts v
    have hv := hsame v
    split_ifs at hc <;> omega

theorem makeRoom_spec (user : Bytes) (order : List SessionID) :
    ∃ t' gone, t.makeRoom o user order = (t', gone) ∧ Evicted user t t' gone ∧ Accounted o t' := by
  unfold makeRoom
  split_ifs
  · exact evict_spec h user (o.userLimit user) order
  · exact ⟨t, [], rfl, .refl user t, h⟩

section

variable {now : ℤ} {order : List SessionID} {g : Option Generation} {evicted : List ℕ} {e : Entered}
  (he : t.enterSession o now req order g = (t', evicted, e))
include he

theorem enterSession_cases : (t' = t ∧ evicted = [] ∧ ((∃ err, e = .failed err) ∨
      ∃ r, e = .joining r ∧ t.sessions.lookup req.sessionID = some r ∧ (t.heap r).user = req.user)) ∨
    (t.sessions.lookup req.sessionID = none ∧ Evicted req.user t t' evicted ∧ Accounted o t' ∧
      ∃ err, e = .failed err) ∨
    ∃ t₁ k, t.sessions.lookup req.sessionID = none ∧ Evicted req.user t t₁ evicted ∧ Accounted o t₁ ∧
      t₁.sessions.size < o.maxSessions ∧ t₁.userCount req.user < o.userLimit req.user ∧ g = some k ∧
      t' = t₁.register (newSession now req k) ∧ e = .created t.fresh := by
  unfold enterSession at he
  cases hl : t.sessions.lookup req.sessionID with
  | some r =>
    simp only [hl] at he
    left
    split_ifs at he with hmismatch <;> cases he
    · exact ⟨rfl, rfl, .inl ⟨_, rfl⟩⟩
    · simp only [not_or, not_not] at hmismatch
      exact ⟨rfl, rfl, .inr ⟨r, rfl, rfl, hmismatch.1⟩⟩
  | none =>
    right
    obtain ⟨t₁, gone, hroom, hev, hacc⟩ := makeRoom_spec h req.user order
    simp only [hl, hroom] at he
    split_ifs at he with hfull hlimit
    · cases he
      exact .inl ⟨rfl, hev, hacc, _, rfl⟩
    · cases he
      exact .inl ⟨rfl, hev, hacc, _, rfl⟩
    · cases g with
      | none =>
        cases he
        exact .inl ⟨rfl, hev, hacc, _, rfl⟩
      | some k =>
        cases he
        exact .inr ⟨t₁, k, rfl, hev, hacc, Nat.lt_of_not_le hfull, Int.lt_of_not_ge hlimit, rfl, rfl, by rw [hev.fresh]⟩

theorem Accounted.enterSession : Accounted o t' := by
  rcases enterSession_cases h he with ⟨rfl, -⟩ | ⟨-, -, hacc, -⟩ | ⟨t₁, k, hn, hev, hacc, hsize, hlimit, -, rfl, -⟩
  · exact h
  · exact hacc
  · refine hacc.register ?_ hsize hlimit
    -- eviction only removes keys, so the id is still free
    cases hl : t₁.sessions.lookup req.sessionID with
    | none => exact hl
    | some r =>
      have := (hev.kept _ _ hl).1
      rw [hn] at this
      cases this

end

theorem Accounted.finishSetup {err : Option String} (hu : (t.heap r).user = req.user) : Accounted o (t.finishSetup req r err) := by
  have h₁ := h.modify r (f := fun s => { s with setupErr := err, ready := true }) (fun _ => rfl) (fun _ => rfl)
  unfold Table.finishSetup
  simp only
  split_ifs with hgone hkept
  · refine h₁.unregister hgone.2 ?_
    simpa [Table.modify] using hu
  · exact h₁.modify r (fun _ => rfl) (fun _ => rfl)
  · exact h₁

end Table

end Hydracore.Parasite.Server
