import Hydracore.Remote.Fetching

namespace Hydracore.Remote

open Systems Option RemoteRuleSet ProviderRemote List

variable {β : Type} {lastEtag e : String} {applied : Option (Origin β)} {cache : Option (SavedBinary β)}
  {requests : List (Request β)} {r : Request β} {o : Origin β} {now : ℕ} {saves : Bool} {answer : Answer β}

def Downloaded (requests : List (Request β)) (o : Origin β) : Prop :=
  ∃ r ∈ requests, r.answer = .ok o.body o.etag true

theorem Downloaded.append (h : Downloaded requests o) (more : List (Request β)) : Downloaded (requests ++ more) o := by
  obtain ⟨r, hr, hanswer⟩ := h
  exact ⟨r, mem_append_left _ hr, hanswer⟩

def Tagged (requests : List (Request β)) (lastEtag : String) (o : Origin β) : Prop :=
  o.etag = lastEtag ∧ Downloaded requests o

structure Consistent (lastEtag : String) (applied : Option (Origin β)) (cache : Option (SavedBinary β))
    (requests : List (Request β)) : Prop where
  current : lastEtag ≠ "" → ∃ o, applied = some o ∧ Tagged requests lastEtag o
  saved : ∀ saved, cache = some saved → saved.lastEtag ≠ "" → Tagged requests saved.lastEtag saved.content
  sent : ∀ r ∈ requests, ∀ e, r.sent = some e → e ≠ "" ∧ ∃ o, r.applied = some o ∧ Tagged requests e o

theorem Tagged.append (h : Tagged requests e o) (more : List (Request β)) : Tagged (requests ++ more) e o :=
  ⟨h.1, h.2.append more⟩

section

variable (h : Consistent lastEtag applied cache requests)
include h

theorem Consistent.ask (answer : Answer β) :
    Consistent lastEtag applied cache (requests ++ [⟨ifNoneMatch none lastEtag, applied, answer⟩]) := by
  have hcurrent : lastEtag ≠ "" → ∃ o, applied = some o ∧
      Tagged (requests ++ [⟨ifNoneMatch none lastEtag, applied, answer⟩]) lastEtag o := by
    intro hne
    obtain ⟨o, ho, htagged⟩ := h.current hne
    exact ⟨o, ho, htagged.append _⟩
  refine ⟨hcurrent, fun saved hsaved hne => (h.saved saved hsaved hne).append _, ?_⟩
  intro r hr e he
  rcases mem_append.mp hr with hold | hnew
  · obtain ⟨hne, o, ho, htagged⟩ := h.sent r hold e he
    exact ⟨hne, o, ho, htagged.append _⟩
  · obtain rfl := mem_singleton.mp hnew
    simp only [ifNoneMatch, none_or, ite_none_left_eq_some, some.injEq] at he
    obtain ⟨hne, rfl⟩ := he
    exact ⟨hne, hcurrent hne⟩

theorem Consistent.apply {body : β} {etag : String}
    (hdownloaded : Downloaded requests ⟨body, etag⟩) (hetag : etag ≠ "" ∨ lastEtag = "") (saves : Bool) (now : ℕ)
    (url : String) : Consistent (if etag ≠ "" then etag else lastEtag) (some ⟨body, etag⟩)
      (if saves then some ⟨⟨body, etag⟩, now, if etag ≠ "" then etag else lastEtag, url⟩ else cache) requests := by
  have hnew : (if etag ≠ "" then etag else lastEtag) ≠ "" →
      Tagged requests (if etag ≠ "" then etag else lastEtag) ⟨body, etag⟩ := by
    intro hne
    by_cases hempty : etag = ""
    · have hlast := hetag.resolve_left (not_not_intro hempty)
      simp [hempty, hlast] at hne
    · rw [if_pos hempty]
      exact ⟨rfl, hdownloaded⟩
  refine ⟨fun hne => ⟨_, rfl, hnew hne⟩, ?_, h.sent⟩
  intro saved hsaved hne
  cases saves with
  | true =>
    cases hsaved
    exact hnew hne
  | false => exact h.saved saved hsaved hne

theorem Consistent.touch {f : SavedBinary β → SavedBinary β}
    (hf : ∀ saved, (f saved).lastEtag = saved.lastEtag ∧ (f saved).content = saved.content) (saves : Bool) :
    Consistent lastEtag applied (if saves then cache.map f else cache) requests := by
  refine ⟨h.current, ?_, h.sent⟩
  intro saved hsaved hne
  split_ifs at hsaved
  · obtain ⟨old, hold, rfl⟩ := map_eq_some_iff.mp hsaved
    rw [(hf old).1] at hne ⊢
    rw [(hf old).2]
    exact h.saved old hold hne
  · exact h.saved saved hsaved hne

theorem Consistent.forget (applied' : Option (Origin β)) (he : e = "") : Consistent e applied' cache requests :=
  ⟨fun hne => absurd he hne, h.saved, h.sent⟩

theorem Consistent.restore {saved : SavedBinary β}
    (hsaved : cache = some saved) : Consistent saved.lastEtag (some saved.content) cache requests :=
  ⟨fun hne => ⟨saved.content, rfl, h.saved saved hsaved hne⟩, h.saved, h.sent⟩

theorem Consistent.disciplined : Disciplined requests := by
  intro r hr
  constructor
  · intro e he
    obtain ⟨-, o, ho, rfl, -⟩ := h.sent r hr e he
    exact ⟨o.body, ho⟩
  · intro tagOf hinj hhonest current hcurrent
    have hsent := hhonest r hr
    rw [hcurrent] at hsent
    obtain ⟨hne, o, ho, htag, r', hr', hanswer⟩ := h.sent r hr _ hsent
    -- the applied body came with its own tag, which is the one of the server's body
    have hgiven := hhonest r' hr'
    rw [hanswer] at hgiven
    have hsame : o.etag = tagOf o.body := hgiven.resolve_left (htag ▸ hne)
    obtain rfl : o.body = current := hinj _ _ (hsame.symm.trans htag)
    exact ⟨o.etag, ho⟩

end

namespace ProviderRemote

variable {p p' : ProviderRemote β} {configured : Option String}

def Sound (p : ProviderRemote β) : Prop := Consistent p.lastEtag p.lastOutOpts p.cache p.requests

theorem Sound.start (h : Sound p) (stores restores : Bool) : Sound (p.start stores restores) := by
  rcases p with ⟨running, lastEtag, lastUpdated, lastOutOpts, cache, requests⟩
  cases stores with
  | false => exact h.forget none rfl
  | true =>
    cases cache with
    | none => exact h.forget none rfl
    | some saveSub =>
      cases restores with
      | false => exact h.forget none rfl
      | true => exact Consistent.restore h rfl

theorem Sound.fetch (h : Sound p) (hmet : p.orderly none (.fetch now saves answer) = true) :
    Sound (p.fetch none now saves answer) := by
  have hask := h.ask answer
  cases answer with
  | error | status code | broken => exact hask
  | notModified current =>
    exact hask.touch (f := fun saveSub => { saveSub with lastUpdated := now + 1 }) (fun _ => ⟨rfl, rfl⟩) saves
  | ok body etag applies =>
    have hdownloaded : Downloaded
        (p.requests ++ [⟨ifNoneMatch none p.lastEtag, p.lastOutOpts, .ok body etag true⟩]) ⟨body, etag⟩ :=
      ⟨_, mem_append_right _ mem_cons_self, rfl⟩
    cases applies with
    | true =>
      apply hask.apply hdownloaded
      by_cases hempty : etag = ""
      · right
        simpa [orderly, hempty] using hmet
      · exact .inl hempty
    | false =>
      have hempty : etag = "" := by
        by_contra hne
        simp [orderly, hne] at hmet
      simpa [ProviderRemote.fetch, Sound, hempty] using hask

theorem Sound.step {act : ProviderStep β} (h : Sound p) (hmet : p.orderly configured act = true)
    (hp : p.step configured act = some p') : Sound p' := by
  obtain rfl : configured = none := isNone_iff_eq_none.mp (Bool.and_eq_true_iff.mp hmet).1
  cases act with
  | start stores restores =>
    obtain ⟨-, hp⟩ := ite_none_left_eq_some.mp hp
    cases hp
    exact h.start stores restores
  | close =>
    obtain ⟨-, hp⟩ := ite_none_right_eq_some.mp hp
    cases hp
    exact h
  | fetch now saves answer =>
    obtain ⟨-, hp⟩ := ite_none_right_eq_some.mp hp
    cases hp
    exact h.fetch hmet

end ProviderRemote

namespace RemoteRuleSet

variable {s s' : RemoteRuleSet β} {configured : Option String} {url : String}

structure Sound (s : RemoteRuleSet β) : Prop where
  consistent : Consistent s.lastEtag s.rules s.cache s.requests
  dated : ∀ saved, s.cache = some saved → saved.lastUpdated ≠ 0

theorem Sound.restore (h : Sound s) (hetag : s.lastEtag = "") (url : String) (stores restores : Bool) :
    Sound (s.restore url stores restores) ∧
      ((s.restore url stores restores).lastUpdated = 0 → (s.restore url stores restores).lastEtag = "") := by
  unfold RemoteRuleSet.restore
  cases stores with
  | false => exact ⟨h, fun _ => hetag⟩
  | true =>
    split
    · exact ⟨h, fun _ => hetag⟩
    · next savedSet hcache =>
      split_ifs
      · exact ⟨h, fun _ => hetag⟩
      · exact ⟨⟨h.consistent.restore hcache, h.dated⟩, fun hzero => absurd hzero (h.dated savedSet hcache)⟩
      · exact ⟨h, fun _ => hetag⟩

theorem Sound.start (h : Sound s) (stores restores : Bool) (initial : Option β) :
    Sound (s.start url stores restores initial) := by
  have hfresh : Sound
      { s with running := true, starting := false, refs := 0, lastEtag := "", lastUpdated := 0, rules := none } :=
    ⟨h.consistent.forget none rfl, h.dated⟩
  obtain ⟨hrestored, hempty⟩ := hfresh.restore rfl url stores restores
  unfold RemoteRuleSet.start
  simp only
  split_ifs with hzero
  · cases initial with
    | none => exact ⟨hrestored.consistent, hrestored.dated⟩
    | some content => exact ⟨hrestored.consistent.forget (some ⟨content, ""⟩) (hempty hzero), hrestored.dated⟩
  · exact hrestored

theorem Sound.fetch (h : Sound s) (hmet : s.orderly none (.fetch now saves answer) = true) :
    Sound (s.fetch none url now saves answer) := by
  have hask := h.consistent.ask answer
  cases answer with
  | error | status code | broken => exact ⟨hask, h.dated⟩
  | notModified current =>
    refine ⟨hask.touch (f := fun savedSet => { savedSet with lastUpdated := now + 1, urlHash := url })
      (fun _ => ⟨rfl, rfl⟩) saves, fun saved hsaved => ?_⟩
    cases saves with
    | false => exact h.dated saved hsaved
    | true =>
      obtain ⟨old, -, rfl⟩ := map_eq_some_iff.mp hsaved
      exact Nat.succ_ne_zero now
  | ok body etag applies =>
    cases applies with
    | false => exact ⟨hask, h.dated⟩
    | true =>
      have hdownloaded : Downloaded
          (s.requests ++ [⟨ifNoneMatch none s.lastEtag, s.rules, .ok body etag true⟩]) ⟨body, etag⟩ :=
        ⟨_, mem_append_right _ mem_cons_self, rfl⟩
      refine ⟨hask.apply hdownloaded ?_ saves (now + 1) url, fun saved hsaved => ?_⟩
      · by_cases hempty : etag = ""
        · right
          simpa [orderly, hempty] using hmet
        · exact .inl hempty
      · cases saves with
        | false => exact h.dated saved hsaved
        | true =>
          cases hsaved
          exact Nat.succ_ne_zero now

theorem Sound.cleanup (h : Sound s) (hdrop : 0 < s.refs ∨ s.lastEtag = "") : Sound s.cleanup := by
  unfold RemoteRuleSet.cleanup
  split_ifs with hrefs
  · exact ⟨h.consistent.forget none (hdrop.resolve_left (by omega)), h.dated⟩
  · exact h

theorem Sound.updateOnce (h : Sound s) (hmet : s.orderly none (.fetch now saves answer) = true)
    (hstarted : s.starting = false) :
    Sound (s.updateOnce none url now saves answer) := by
  have hfetch : Sound (s.fetch none url now saves answer) := h.fetch hmet
  unfold RemoteRuleSet.updateOnce
  split
  · exact hfetch.cleanup (by simpa [orderly, hstarted, RemoteRuleSet.fetch] using hmet)
  · next etag =>
    apply hfetch.cleanup
    by_cases hempty : etag = "" <;> simp_all [orderly, RemoteRuleSet.fetch]
  · exact hfetch

theorem Sound.step {act : RuleSetStep β} (h : Sound s) (hmet : s.orderly configured act = true)
    (hs : s.step configured url act = some s') : Sound s' := by
  obtain rfl : configured = none := isNone_iff_eq_none.mp (Bool.and_eq_true_iff.mp hmet).1
  cases act with
  | start stores restores initial =>
    obtain ⟨-, hs⟩ := ite_none_left_eq_some.mp hs
    cases hs
    exact h.start stores restores initial
  | close =>
    obtain ⟨-, hs⟩ := ite_none_right_eq_some.mp hs
    cases hs
    exact ⟨h.consistent, h.dated⟩
  | incRef =>
    cases hs
    exact ⟨h.consistent, h.dated⟩
  | decRef =>
    obtain ⟨-, hs⟩ := ite_none_left_eq_some.mp hs
    cases hs
    exact ⟨h.consistent, h.dated⟩
  | cleanup =>
    cases hs
    exact h.cleanup (by simpa [orderly] using hmet)
  | fetch now saves answer =>
    obtain ⟨-, hs⟩ := ite_none_left_eq_some.mp hs
    split_ifs at hs with hstarting <;> cases hs
    · exact h.fetch hmet
    · exact h.updateOnce hmet (Bool.eq_false_of_not_eq_true hstarting)

end RemoteRuleSet

theorem consistent_initial : Consistent "" (none : Option (Origin β)) none [] :=
  ⟨fun hne => absurd rfl hne, nofun, nofun⟩

theorem requests_disciplined (β : Type) (configured : Option String) (url : String) :
    (∀ (p : ProviderRemote β) (acts : List (ProviderStep β)),
      Run (step configured) (orderly configured · ·) .initial acts p → Disciplined p.requests) ∧
    ∀ (s : RemoteRuleSet β) (acts : List (RuleSetStep β)),
      Run (step configured url) (orderly configured · ·) .initial acts s → Disciplined s.requests := by
  constructor
  · intro p acts h
    have hsound : p.Sound := h.invariant .step consistent_initial
    exact hsound.disciplined
  · intro s acts h
    have hsound : s.Sound := h.invariant .step ⟨consistent_initial, nofun⟩
    exact hsound.consistent.disciplined

theorem requests_disciplined_restart : (∃ p : ProviderRemote ℕ, Run (step none) (orderly none · ·) .initial
      [.start true true, .fetch 0 true (.ok 1 "a" true), .close, .start true true, .fetch 1 true (.notModified 1)] p ∧
      Disciplined p.requests ∧ p.requests[1]? = some ⟨some "a", some ⟨1, "a"⟩, .notModified 1⟩) ∧
    ∃ s : RemoteRuleSet ℕ, Run (step none "u") (orderly none · ·) .initial
      [.start true true none, .fetch 0 true (.ok 1 "a" true), .incRef, .cleanup, .fetch 1 true (.ok 2 "b" false),
        .fetch 2 true (.ok 2 "b" true)] s ∧
      Disciplined s.requests ∧ s.requests[2]? = some ⟨some "a", some ⟨1, "a"⟩, .ok 2 "b" true⟩ := by
  constructor
  · refine (Run.exists_of_decideWhile ?_).imp fun p ⟨hrun, hp⟩ => ⟨hrun, (requests_disciplined ℕ none "u").1 p _ hrun, hp⟩
    decide +kernel
  · refine (Run.exists_of_decideWhile ?_).imp fun s ⟨hrun, hs⟩ => ⟨hrun, (requests_disciplined ℕ none "u").2 s _ hrun, hs⟩
    decide +kernel

theorem requests_not_disciplined : (∃ p : ProviderRemote ℕ, Run (step none) anyStep .initial
      [.start true true, .fetch 0 true (.ok 1 "a" true), .fetch 1 true (.ok 2 "b" false),
        .fetch 2 true (.notModified 2)] p ∧ p.requests[2]? = some ⟨some "b", some ⟨1, "a"⟩, .notModified 2⟩) ∧
    (∃ s : RemoteRuleSet ℕ, Run (step none "u") anyStep .initial
      [.start true true none, .incRef, .fetch 0 true (.ok 1 "a" true), .fetch 1 true (.ok 2 "" true),
        .fetch 2 true (.notModified 1)] s ∧ s.requests[2]? = some ⟨some "a", some ⟨2, ""⟩, .notModified 1⟩) ∧
    ∃ s : RemoteRuleSet ℕ, Run (step none "u") anyStep .initial
      [.start true true none, .fetch 0 true (.ok 1 "a" true), .cleanup, .fetch 1 true (.notModified 1)] s ∧
      s.requests[1]? = some ⟨some "a", none, .notModified 1⟩ := by
  refine ⟨Run.exists_of_decide ?_, Run.exists_of_decide ?_, Run.exists_of_decide ?_⟩
  all_goals decide +kernel

end Hydracore.Remote
