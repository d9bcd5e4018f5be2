import Hydracore.Systems.Tasks
import Hydracore.Vless.Tickets

namespace Hydracore.Vless

open Formats Systems List Option Function Server ServerSession

variable {κ : Type} {l : Lifetimes}

theorem unix_mono {time time' : ℕ} (h : time ≤ time') : unix time ≤ unix time' := by
  unfold unix
  exact_mod_cast Nat.div_le_div_right h

namespace Lifetimes

theorem longest_pos (h : l.kept = true) : 0 < l.longest := by
  simp only [kept, decide_eq_true_eq] at h
  unfold longest
  omega

theorem randBetween_le {lo hi s : ℤ} {random : ℕ} (h : randBetween lo hi random = some s) : s ≤ max lo hi := by
  unfold randBetween at h
  split_ifs at h with heq
  · cases h
    exact Int.le_max_left lo hi
  · simp only at h
    split_ifs at h with hwidth
    cases h
    have hlt := Int.emod_lt_of_pos random (not_le.mp hwidth)
    have hexact : int64 (max lo hi - min lo hi) ≤ max lo hi - min lo hi := by
      unfold int64 at hwidth ⊢
      omega
    omega

theorem tdiv_cases (v d : ℤ) : 0 ≤ v ∧ v.tdiv d = v / d ∨ v < 0 ∧ v.tdiv d = -(-v / d) := by
  rcases lt_or_ge v 0 with hneg | hnonneg
  · refine .inr ⟨hneg, ?_⟩
    rw [← Int.tdiv_eq_ediv_of_nonneg (by omega), Int.neg_tdiv, neg_neg]
  · exact .inl ⟨hnonneg, Int.tdiv_eq_ediv_of_nonneg hnonneg⟩

theorem marker_due {time earlier clock : ℕ} (hpos : 0 < l.longest) (hearlier : earlier ≤ time) (htime : time ≤ clock)
    (hmarker : l.marker time = unix clock / 60) :
    l.marker earlier ≤ l.marker time ∧ unix earlier + l.longest < unix clock := by
  have hfits : l.longest < 9223372036854775808 := by
    have := l.fits
    unfold longest
    omega
  have hE := unix_mono hearlier
  have hT := unix_mono htime
  have h0 : 0 ≤ unix earlier := Int.natCast_nonneg _
  unfold marker at *
  have hdivE := tdiv_cases (int64 (unix earlier + l.longest)) 60
  have hdivT := tdiv_cases (int64 (unix time + l.longest)) 60
  generalize (int64 (unix earlier + l.longest)).tdiv 60 = qE at *
  generalize (int64 (unix time + l.longest)).tdiv 60 = qT at *
  unfold int64 at hdivE hdivT
  omega

theorem percent_le {seconds percent : ℤ} (hpos : 0 < seconds) (hlo : 50 ≤ percent) (hhi : percent < 100) :
    (int64 (seconds * percent)).tdiv 100 ≤ seconds := by
  have hle : seconds * percent ≤ seconds * 99 := Int.mul_le_mul_of_nonneg_left (by omega) (by omega)
  have hge : 0 ≤ seconds * percent := Int.mul_nonneg (by omega) (by omega)
  have hdiv := tdiv_cases (int64 (seconds * percent)) 100
  generalize (int64 (seconds * percent)).tdiv 100 = q at *
  generalize seconds * percent = product at *
  unfold int64 at hdiv
  omega

theorem seconds_le {random : ℕ} {s : ℤ} (hkept : l.kept = true) (h : l.seconds random = some s) : s ≤ l.longest := by
  unfold seconds at h
  split_ifs at h with hto
  · obtain ⟨percent, hpercent, rfl⟩ := map_eq_some_iff.mp h
    have hpercent' : percent = 50 + random % 50 := (some.inj hpercent).symm
    have hfrom : 0 < l.secondsFrom := by
      simp only [kept, decide_eq_true_eq, hto] at hkept
      omega
    apply Int.le_trans (percent_le hfrom (by omega) (by omega))
    exact Int.le_max_left _ _
  · exact randBetween_le h

end Lifetimes

namespace Server

variable {s s' : Server κ} {r : Issued}

section Walk

variable {last : Bytes}

theorem walk_append {before : List Issued} (hbefore : ∀ r ∈ before, r.ticket ≠ last) (hlast : r.ticket = last)
    (rest : List Issued) (sessions : Bytes → Option ℕ) : (walk last (before ++ r :: rest) sessions).2 = some rest ∧
      ∀ ticket, ticket ∉ (before ++ [r]).map Issued.ticket →
        (walk last (before ++ r :: rest) sessions).1 ticket = sessions ticket := by
  induction before generalizing sessions with
  | nil =>
    rw [nil_append, walk]
    simp only [hlast, if_true]
    refine ⟨trivial, fun ticket hticket => update_of_ne ?_ _ _⟩
    simpa [hlast] using hticket
  | cons first before ih =>
    rw [cons_append, walk]
    simp only [hbefore first mem_cons_self, if_false]
    obtain ⟨hrest, hsame⟩ := ih (fun r hr => hbefore r (mem_cons_of_mem first hr))
      (update sessions first.ticket none)
    refine ⟨hrest, fun ticket hticket => ?_⟩
    rw [cons_append, map_cons, mem_cons, not_or] at hticket
    rw [hsame ticket hticket.2]
    exact update_of_ne hticket.1 _ _

end Walk

/-- The tickets are in the order of their issue and have their sessions; a marker is filed under the minute of its ticket,
which is there until then; and what is no longer there has been issued long enough ago. -/
structure Timely (l : Lifetimes) (s : Server κ) : Prop where
  sorted : s.tickets.Pairwise (·.time ≤ ·.time)
  distinct : (s.tickets.map Issued.ticket).Nodup
  listed : ∀ r ∈ s.tickets, r ∈ s.issued
  past : ∀ r ∈ s.issued, r.time ≤ s.clock
  held : ∀ r ∈ s.tickets, (s.sessions r.ticket).isSome = true
  filed : ∀ minute r, s.lasts minute = some r →
    l.marker r.time = minute ∧ r.time ≤ s.clock ∧ (unix s.clock / 60 ≤ minute → r ∈ s.tickets)
  lasting : ∀ r ∈ s.issued, 0 < r.seconds → r ∈ s.tickets ∨ unix r.time + l.longest < unix s.clock
  bounded : ∀ r ∈ s.issued, 0 < r.seconds → r.seconds ≤ l.longest
  kept : ∀ minute r, s.lasts minute = some r → l.kept = true

section

variable (h : Timely l s)
include h

theorem Timely.congr (hclock : s'.clock = s.clock) (hlasts : s'.lasts = s.lasts)
    (htickets : s'.tickets = s.tickets) (hsessions : s'.sessions = s.sessions) (hissued : s'.issued = s.issued) :
    Timely l s' := by
  constructor
  all_goals simp only [hclock, hlasts, htickets, hsessions, hissued]
  exacts [h.sorted, h.distinct, h.listed, h.past, h.held, h.filed, h.lasting, h.bounded, h.kept]

theorem Timely.issue (htime : r.time = s.clock) (hseconds : r.seconds ≤ 0) :
    Timely l { s with issued := s.issued ++ [r] } := by
  refine ⟨h.sorted, h.distinct, fun p hp => mem_append_left _ (h.listed p hp), ?_, h.held, h.filed, ?_, ?_, h.kept⟩
  · exact forall_mem_concat h.past (le_of_eq htime)
  · exact forall_mem_concat h.lasting fun hpos => absurd hpos (not_lt.mpr hseconds)
  · exact forall_mem_concat h.bounded fun hpos => absurd hpos (not_lt.mpr hseconds)

theorem Timely.tick (elapsed : ℕ) : Timely l { s with clock := s.clock + elapsed } := by
  have hclock : unix s.clock ≤ unix (s.clock + elapsed) := unix_mono (Nat.le_add_right _ _)
  refine ⟨h.sorted, h.distinct, h.listed, fun r hr => Nat.le_add_right_of_le (h.past r hr), h.held,
    fun minute r hr => ?_, fun r hr hpos => ?_, h.bounded, h.kept⟩
  · obtain ⟨hmarker, htime, hthere⟩ := h.filed minute r hr
    refine ⟨hmarker, Nat.le_add_right_of_le htime, fun hminute => hthere ?_⟩
    simp only at hminute
    omega
  · refine (h.lasting r hr hpos).imp_right fun hpast => ?_
    simp only
    omega

theorem Timely.file (pfsKey : Bytes) (hkept : l.kept = true) (hfresh : r.ticket ∉ s.issued.map Issued.ticket)
    (htime : r.time = s.clock) (hseconds : r.seconds ≤ l.longest) : Timely l (s.file l r pfsKey) := by
  have hold : ∀ p ∈ s.tickets, p.ticket ≠ r.ticket := by
    intro p hp heq
    exact hfresh (heq ▸ List.mem_map_of_mem (h.listed p hp))
  refine ⟨?_, ?_, ?_, ?_, ?_, ?_, ?_, ?_, ?_⟩
  · simp only [Server.file, pairwise_append]
    refine ⟨h.sorted, pairwise_singleton _ _, fun p hp q hq => ?_⟩
    rw [mem_singleton.mp hq, htime]
    exact h.past p (h.listed p hp)
  · simp only [Server.file, map_append, map_cons, map_nil]
    rw [← concat_eq_append]
    refine Nodup.concat (fun hmem => ?_) h.distinct
    obtain ⟨p, hp, heq⟩ := List.mem_map.mp hmem
    exact hold p hp heq
  · exact forall_mem_concat (fun p hp => mem_append_left _ (h.listed p hp)) (mem_append_right _ mem_cons_self)
  · exact forall_mem_concat h.past (le_of_eq htime)
  · refine forall_mem_concat (fun p hp => ?_) ?_
    · simp only [Server.file, update_of_ne (hold p hp)]
      exact h.held p hp
    · simp only [Server.file, update_self, isSome_some]
  · intro minute p hp
    obtain ⟨rfl, ⟨⟩⟩ | ⟨-, hp⟩ := update_eq_some hp
    · exact ⟨by rw [htime], le_of_eq htime, fun _ => mem_append_right _ mem_cons_self⟩
    · obtain ⟨hmarker, hpast, hthere⟩ := h.filed minute p hp
      exact ⟨hmarker, hpast, fun hlater => mem_append_left _ (hthere hlater)⟩
  · refine forall_mem_concat (fun p hp hpos => ?_) fun _ => .inl (mem_append_right _ mem_cons_self)
    exact (h.lasting p hp hpos).imp_left fun hmem => mem_append_left _ hmem
  · exact forall_mem_concat h.bounded fun _ => hseconds
  · exact fun _ _ _ => hkept

theorem Timely.unfile (minute : ℤ) : Timely l (s.unfile minute) := by
  have hfiled : ∀ key r, update s.lasts minute none key = some r → s.lasts key = some r := by
    intro key r hr
    obtain ⟨-, ⟨⟩⟩ | ⟨-, hr⟩ := update_eq_some hr
    exact hr
  exact ⟨h.sorted, h.distinct, h.listed, h.past, h.held, fun key r hr => h.filed key r (hfiled key r hr), h.lasting,
    h.bounded, fun key r hr => h.kept key r (hfiled key r hr)⟩

theorem Timely.drop (hpos : 0 < l.longest) (hmarker : l.marker r.time = unix s.clock / 60)
    (hmem : r ∈ s.tickets) (hunfiled : s.lasts (unix s.clock / 60) = none) : Timely l (s.drop r) := by
  obtain ⟨before, rest, hsplit⟩ := append_of_mem hmem
  have hdistinct := h.distinct
  have hsorted := h.sorted
  rw [hsplit, map_append, map_cons, nodup_append, nodup_cons] at hdistinct
  rw [hsplit, pairwise_append, pairwise_cons] at hsorted
  have hbefore : ∀ p ∈ before, p.ticket ≠ r.ticket := by
    intro p hp
    exact hdistinct.2.2 _ (List.mem_map_of_mem hp) _ mem_cons_self
  obtain ⟨hrest, hsame⟩ := walk_append hbefore rfl rest s.sessions
  rw [← hsplit] at hrest hsame
  have htickets : (s.drop r).tickets = rest := by
    simp only [Server.drop, hrest, getD_some]
  have hsub : ∀ p ∈ rest, p ∈ s.tickets := by
    intro p hp
    rw [hsplit]
    exact mem_append_right _ (mem_cons_of_mem r hp)
  have hdue : ∀ p ∈ s.tickets, p ∉ rest → l.marker p.time ≤ unix s.clock / 60 ∧ unix p.time + l.longest < unix s.clock := by
    intro p hp hnot
    have hearlier : p.time ≤ r.time := by
      rw [hsplit, mem_append, mem_cons] at hp
      rcases hp with hp | rfl | hp
      · exact hsorted.2.2 p hp r mem_cons_self
      · exact le_rfl
      · exact absurd hp hnot
    rw [← hmarker]
    exact l.marker_due hpos hearlier (h.past r (h.listed r hmem)) hmarker
  refine ⟨?_, ?_, ?_, h.past, ?_, ?_, ?_, h.bounded, h.kept⟩
  · rw [htickets]
    exact hsorted.2.1.2
  · rw [htickets]
    exact hdistinct.2.1.2
  · rw [htickets]
    exact fun p hp => h.listed p (hsub p hp)
  · rw [htickets]
    intro p hp
    have hother : p.ticket ∉ (before ++ [r]).map Issued.ticket := by
      rw [map_append, mem_append, not_or]
      refine ⟨fun hin => ?_, fun hin => ?_⟩
      · exact hdistinct.2.2 _ hin _ (mem_cons_of_mem _ (List.mem_map_of_mem hp)) rfl
      · rw [map_cons, map_nil, mem_singleton] at hin
        exact hdistinct.2.1.1 (hin ▸ List.mem_map_of_mem hp)
    simp only [Server.drop, hsame _ hother]
    exact h.held p (hsub p hp)
  · intro minute p hp
    obtain ⟨hp', hpast, hthere⟩ := h.filed minute p hp
    refine ⟨hp', hpast, fun hlater => ?_⟩
    rw [htickets]
    by_contra hnot
    have hmarker' := (hdue p (hthere hlater) hnot).1
    obtain rfl : minute = unix s.clock / 60 := by
      have hlater' : unix s.clock / 60 ≤ minute := hlater
      omega
    change s.lasts (unix s.clock / 60) = some p at hp
    rw [hunfiled] at hp
    cases hp
  · intro p hp hseconds
    rw [htickets]
    rcases h.lasting p hp hseconds with hthere | hpast
    · by_cases hin : p ∈ rest
      · exact .inl hin
      · exact .inr (hdue p hthere hin).2
    · exact .inr hpast

theorem Timely.cleanUp : Timely l s.cleanUp := by
  have hunfiled := (h.unfile (unix s.clock / 60)).unfile (unix s.clock / 60 - 1)
  simp only [Server.cleanUp]
  split
  · exact hunfiled
  · next last hlast =>
    split_ifs
    · exact hunfiled
    · obtain ⟨hmarker, -, hthere⟩ := h.filed _ last hlast
      refine hunfiled.drop (Lifetimes.longest_pos (h.kept _ last hlast)) hmarker (hthere le_rfl) ?_
      simp only [Server.unfile]
      rw [update_of_ne (by omega), update_self]

end

structure Keyed (s : Server κ) : Prop where
  single : (s.made.map ServerSession.ticket).Nodup
  issued : ∀ session ∈ s.made, session.ticket ∈ s.issued.map Issued.ticket
  sessions : ∀ ticket i, s.sessions ticket = some i → s.made[i]?.map ServerSession.ticket = some ticket
  pending : ∀ handshake ∈ s.pending, s.made[handshake.1]?.map ServerSession.ticket = some handshake.2.1
  accepted : ∀ handshake ∈ s.accepted, ∃ session ∈ s.made, session.ticket = handshake.1 ∧ handshake.2 ∈ session.nfsKeys
  once : s.accepted.Nodup

theorem Keyed.congr (h : Keyed s) (hmade : s'.made = s.made) (hissued : ∀ r ∈ s.issued, r ∈ s'.issued)
    (hsessions : s'.sessions = s.sessions) (hpending : s'.pending = s.pending) (haccepted : s'.accepted = s.accepted) :
    Keyed s' := by
  constructor
  all_goals simp only [hmade, hsessions, hpending, haccepted]
  · exact h.single
  · intro session hsession
    obtain ⟨r, hr, heq⟩ := List.mem_map.mp (h.issued session hsession)
    exact heq ▸ List.mem_map_of_mem (hissued r hr)
  exacts [h.sessions, h.pending, h.accepted, h.once]

theorem Keyed.file (h : Keyed s) (pfsKey : Bytes) (hfresh : r.ticket ∉ s.issued.map Issued.ticket) :
    Keyed (s.file l r pfsKey) := by
  have hmade : ∀ {i : ℕ} {ticket : Bytes}, s.made[i]?.map ServerSession.ticket = some ticket →
      (s.made ++ [⟨r.ticket, pfsKey, []⟩])[i]?.map ServerSession.ticket = some ticket := by
    intro i ticket hi
    obtain ⟨session, hsession, rfl⟩ := map_eq_some_iff.mp hi
    rw [getElem?_append_of_some hsession]
    rfl
  refine ⟨?_, ?_, ?_, ?_, ?_, h.once⟩
  · simp only [Server.file, map_append, map_cons, map_nil]
    rw [← concat_eq_append]
    refine Nodup.concat (fun hmem => ?_) h.single
    obtain ⟨session, hsession, heq⟩ := List.mem_map.mp hmem
    exact hfresh (heq ▸ h.issued session hsession)
  · simp only [Server.file, map_append, map_cons, map_nil]
    refine forall_mem_concat (fun session hsession => ?_) ?_
    · exact mem_append_left _ (h.issued session hsession)
    · exact mem_append_right _ mem_cons_self
  · intro ticket i hi
    obtain ⟨rfl, ⟨⟩⟩ | ⟨-, hi⟩ := update_eq_some hi
    · simp [Server.file]
    · exact hmade (h.sessions ticket i hi)
  · exact fun handshake hhandshake => hmade (h.pending handshake hhandshake)
  · intro handshake hhandshake
    obtain ⟨session, hsession, hkey⟩ := h.accepted handshake hhandshake
    exact ⟨session, mem_append_left _ hsession, hkey⟩

theorem Keyed.load (h : Keyed s) (ticket : Bytes) (nfsKey : κ) : Keyed (s.load ticket nfsKey) := by
  unfold Server.load
  split
  · exact h
  · next session hsession =>
    exact ⟨h.single, h.issued, h.sessions, forall_mem_concat h.pending (h.sessions ticket session hsession), h.accepted,
      h.once⟩

theorem walk_some {last : Bytes} {tickets : List Issued} {sessions : Bytes → Option ℕ} {ticket : Bytes} {i : ℕ}
    (h : (walk last tickets sessions).1 ticket = some i) : sessions ticket = some i := by
  induction tickets generalizing sessions with
  | nil => exact h
  | cons r tickets ih =>
    have hdropped : update sessions r.ticket none ticket = some i := by
      rw [walk] at h
      split_ifs at h
      · exact h
      · exact ih h
    obtain ⟨-, ⟨⟩⟩ | ⟨-, hheld⟩ := update_eq_some hdropped
    exact hheld

theorem Keyed.cleanUp (h : Keyed s) : Keyed s.cleanUp := by
  have hunfiled : Keyed ((s.unfile (unix s.clock / 60)).unfile (unix s.clock / 60 - 1)) :=
    ⟨h.single, h.issued, h.sessions, h.pending, h.accepted, h.once⟩
  simp only [Server.cleanUp]
  split
  · exact hunfiled
  · split_ifs
    · exact hunfiled
    · exact ⟨h.single, h.issued, fun ticket i hi => h.sessions ticket i (walk_some hi), h.pending, h.accepted, h.once⟩

variable [DecidableEq κ]

theorem Keyed.accept {i : ℕ} {handshake : ℕ × Bytes × κ} {session : ServerSession κ} (h : Keyed s)
    (hpending : s.pending[i]? = some handshake) (hsession : s.made[handshake.1]? = some session) :
    Keyed (s.accept i handshake session) := by
  have herase : ∀ p ∈ s.pending.eraseIdx i, s.made[p.1]?.map ticket = some p.2.1 :=
    fun p hp => h.pending p (mem_of_mem_eraseIdx hp)
  unfold Server.accept
  split_ifs with hkey
  · exact ⟨h.single, h.issued, h.sessions, herase, h.accepted, h.once⟩
  generalize hused : ({ session with nfsKeys := handshake.2.2 :: session.nfsKeys } : ServerSession κ) = used
  have hticket : session.ticket = handshake.2.1 := by
    have hof := h.pending handshake (mem_of_getElem? hpending)
    rw [hsession] at hof
    exact some.inj hof
  have hat : ∀ j : ℕ, (s.made.set handshake.1 used)[j]?.map ticket = s.made[j]?.map ticket := by
    intro j
    by_cases hj : handshake.1 = j
    · rw [← hj, getElem?_set_self (getElem?_lt hsession), hsession, ← hused]
      rfl
    · rw [getElem?_set_ne hj]
  have hsame : (s.made.set handshake.1 used).map ticket = s.made.map ticket := by
    apply ext_getElem?
    intro j
    rw [getElem?_map, getElem?_map, hat j]
  have husedMem : used ∈ s.made.set handshake.1 used := by
    apply mem_set
    exact getElem?_lt hsession
  refine ⟨?_, ?_, ?_, ?_, ?_, ?_⟩
  · simp only [hsame]
    exact h.single
  · intro other hother
    have hmem := List.mem_map_of_mem (f := ticket) hother
    rw [hsame] at hmem
    obtain ⟨old, hold, heq⟩ := List.mem_map.mp hmem
    exact heq ▸ h.issued old hold
  · intro ticket j hj
    exact (hat j).trans (h.sessions ticket j hj)
  · intro p hp
    exact (hat p.1).trans (herase p hp)
  · refine forall_mem_cons.mpr ⟨⟨used, husedMem, ?_, ?_⟩, fun p hp => ?_⟩
    · rw [← hused]
      exact hticket
    · rw [← hused]
      exact mem_cons_self
    · obtain ⟨old, hold, holdTicket, holdKey⟩ := h.accepted p hp
      obtain ⟨j, hj⟩ := mem_iff_getElem?.mp hold
      by_cases hjp : handshake.1 = j
      · rw [← hjp, hsession] at hj
        cases hj
        refine ⟨used, husedMem, ?_, ?_⟩
        · rw [← hused]
          exact holdTicket
        · rw [← hused]
          exact mem_cons_of_mem _ holdKey
      · refine ⟨old, ?_, holdTicket, holdKey⟩
        apply mem_of_getElem?
        rw [getElem?_set_ne hjp, hj]
  · refine nodup_cons.mpr ⟨fun hin => hkey ?_, h.once⟩
    obtain ⟨old, hold, holdTicket, holdKey⟩ := h.accepted _ hin
    have heq : old = session :=
      inj_on_of_nodup_map h.single hold (mem_of_getElem? hsession) (holdTicket.trans hticket.symm)
    exact heq ▸ holdKey

def distinct (l : Lifetimes) (s : Server κ) : Step κ → Bool
  | .issue random _ lifetime =>
    (l.seconds lifetime).all fun seconds => decide (ticketOf random seconds ∉ s.issued.map Issued.ticket)
  | _ => true

structure Sound (l : Lifetimes) (s : Server κ) : Prop where
  timely : Timely l s
  keyed : Keyed s

theorem Sound.step {a : Step κ} (h : Sound l s) (hmet : distinct l s a = true) (hs : s.step l a = some s') :
    Sound l s' := by
  cases a with simp only [Server.step] at hs
  | tick elapsed =>
    cases hs
    exact ⟨h.timely.tick elapsed, h.keyed.congr rfl (fun _ => id) rfl rfl rfl⟩
  | issue random pfsKey lifetime =>
    split at hs
    · cases hs
    · next seconds hseconds =>
      simp only [distinct, hseconds, all_some, decide_eq_true_eq] at hmet
      split_ifs at hs with hlength hpos hkept
      · cases hs
        exact ⟨h.timely.issue rfl hpos, h.keyed.congr rfl (fun _ hr => mem_append_left _ hr) rfl rfl rfl⟩
      · cases hs
        exact ⟨h.timely.file pfsKey hkept hmet rfl (l.seconds_le hkept hseconds), h.keyed.file pfsKey hmet⟩
  | lookup ticket nfsKey =>
    split_ifs at hs
    · cases hs
      exact h
    · cases hs
      refine ⟨?_, h.keyed.load ticket nfsKey⟩
      unfold load
      split
      · exact h.timely
      · exact h.timely.congr rfl rfl rfl rfl rfl
  | loadOrStore i =>
    split at hs
    · cases hs
    · next handshake hpending =>
      obtain ⟨session, hsession, rfl⟩ := map_eq_some_iff.mp hs
      refine ⟨?_, h.keyed.accept hpending hsession⟩
      unfold accept
      split_ifs
      all_goals exact h.timely.congr rfl rfl rfl rfl rfl
  | wake =>
    split_ifs at hs
    · cases hs
      exact ⟨h.timely.congr rfl rfl rfl rfl rfl, h.keyed.congr rfl (fun _ => id) rfl rfl rfl⟩
    · cases hs
      exact ⟨h.timely.cleanUp, h.keyed.cleanUp⟩
  | close =>
    cases hs
    exact ⟨h.timely.congr rfl rfl rfl rfl rfl, h.keyed.congr rfl (fun _ => id) rfl rfl rfl⟩

theorem tickets_last {clock : ℕ} {steps : List (Step κ)} (h : Run (step l) (distinct l · ·) (start l clock) steps s) :
    s.accepted.Nodup ∧ ∀ r ∈ s.issued, 0 < r.seconds → (s.clock : ℤ) ≤ r.time + r.seconds * second →
      (s.sessions r.ticket).isSome = true := by
  have hsound : Sound l s := h.invariant .step
    ⟨⟨.nil, nodup_nil, nofun, nofun, nofun, nofun, nofun, nofun, nofun⟩,
      ⟨nodup_nil, nofun, nofun, nofun, nofun, nodup_nil⟩⟩
  refine ⟨hsound.keyed.once, fun r hr hpos hclock => ?_⟩
  rcases hsound.timely.lasting r hr hpos with hthere | hpast
  · exact hsound.timely.held r hthere
  · have hbound := hsound.timely.bounded r hr hpos
    unfold unix second at *
    omega

theorem accepted_issued {clock : ℕ} {steps : List (Step κ)}
    (h : Run (step l) (distinct l · ·) (start l clock) steps s) :
    (∀ handshake ∈ s.accepted, ∃ r ∈ s.issued, r.ticket = handshake.1 ∧ r.time ≤ s.clock) ∧
    ∀ ticket i, s.sessions ticket = some i → s.made[i]?.map ServerSession.ticket = some ticket := by
  have hsound : Sound l s := h.invariant .step
    ⟨⟨.nil, nodup_nil, nofun, nofun, nofun, nofun, nofun, nofun, nofun⟩,
      ⟨nodup_nil, nofun, nofun, nofun, nofun, nodup_nil⟩⟩
  refine ⟨fun handshake hmem => ?_, hsound.keyed.sessions⟩
  obtain ⟨session, hmade, hticket, -⟩ := hsound.keyed.accepted handshake hmem
  obtain ⟨r, hr, hissued⟩ := mem_map.mp (hsound.keyed.issued session hmade)
  exact ⟨r, hr, hissued.trans hticket, hsound.timely.past r hr⟩

section Runs

def minute : ℕ := 60 * second

def short : Lifetimes := ⟨300, 600, by decide⟩

def taken : List (Step ℕ) :=
  [.issue (List.replicate 16 7) [] 0, .lookup (ticketOf (List.replicate 16 7) 300) 1,
    .lookup (ticketOf (List.replicate 16 7) 300) 1, .loadOrStore 1, .loadOrStore 0, .wake,
    .lookup (ticketOf (List.replicate 16 7) 300) 2, .loadOrStore 0, .tick (12 * minute),
    .issue (List.replicate 16 8) [] 5, .wake]

theorem tickets_last_taken : ∃ s : Server ℕ, Run (step short) (distinct short · ·) (start short 0) taken s ∧
    (s.accepted.Nodup ∧ ∀ r ∈ s.issued, 0 < r.seconds → (s.clock : ℤ) ≤ r.time + r.seconds * second →
      (s.sessions r.ticket).isSome = true) ∧
    s.accepted.map Prod.snd = [2, 1] ∧ s.tickets.map Issued.seconds = [305] := by
  refine (Run.exists_of_decideWhile ?_).imp fun s ⟨hrun, hs⟩ => ⟨hrun, tickets_last hrun, hs⟩
  decide +kernel

theorem accepted_issued_taken : ∃ s : Server ℕ, Run (step short) (distinct short · ·) (start short 0) taken s ∧
    s.accepted.length = 2 ∧ ∀ handshake ∈ s.accepted, ∃ r ∈ s.issued, r.ticket = handshake.1 ∧ r.time ≤ s.clock := by
  refine (Run.exists_of_decideWhile ?_).imp fun s ⟨hrun, hs⟩ => ⟨hrun, hs, (accepted_issued hrun).1⟩
  decide +kernel

end Runs

end Server

end Hydracore.Vless
