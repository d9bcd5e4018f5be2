import Hydracore.Provider.Updates
import Hydracore.Systems.Tasks

namespace Hydracore.Provider

open Systems List Option Function

variable {ο : Type}

namespace Manager

structure WellFormed (m : Manager ο) : Prop where
  listed : ∀ o, o ∈ m.outbounds ↔ m.outboundByTag o.tag = some o
  tagged : ∀ tag o, m.outboundByTag tag = some o → o.tag = tag

theorem wellFormed_new (endpoint : String → Option (Outbound ο)) (defaultTag : String) :
    (new endpoint defaultTag).WellFormed :=
  ⟨fun _ => ⟨nofun, nofun⟩, nofun⟩

variable [DecidableEq ο] {m : Manager ο} {tag : String} {o : Outbound ο}

theorem mem_without {exists' : Outbound ο} : o ∈ (m.without exists').outbounds ↔ o ∈ m.outbounds ∧ o ≠ exists' := by
  simp [without]

theorem WellFormed.install (h : m.WellFormed) : (m.install o).WellFormed := by
  have htagged : ∀ tag p, (m.install o).outboundByTag tag = some p → p.tag = tag := by
    intro tag p hp
    obtain ⟨rfl, ⟨⟩⟩ | ⟨-, hp⟩ := update_eq_some hp
    · rfl
    · exact h.tagged tag p hp
  refine ⟨fun p => ?_, htagged⟩
  have hrest : p ∈ ((m.outboundByTag o.tag |>.map m.without).getD m).outbounds ↔ p ∈ m.outbounds ∧ p.tag ≠ o.tag := by
    cases hloaded : m.outboundByTag o.tag with
    | none =>
      refine ⟨fun hp => ⟨hp, fun htag => ?_⟩, fun hp => hp.1⟩
      have hheld := (h.listed p).mp hp
      rw [htag, hloaded] at hheld
      cases hheld
    | some old =>
      refine mem_without.trans (and_congr_right fun hp => not_congr ?_)
      have hheld := (h.listed p).mp hp
      constructor
      · rintro rfl
        exact h.tagged _ _ hloaded
      · intro htag
        rw [htag, hloaded] at hheld
        exact (some.inj hheld).symm
  simp only [Manager.install, mem_append, mem_singleton, hrest]
  by_cases htag : p.tag = o.tag
  · rw [htag, update_self]
    simp [eq_comm]
  · rw [update_of_ne htag, ← h.listed p]
    have hne : p ≠ o := fun heq => htag (heq ▸ rfl)
    simp [htag, hne]

theorem WellFormed.delete {old : Outbound ο} (h : m.WellFormed) (hold : m.outboundByTag tag = some old) :
    (m.delete tag old).WellFormed := by
  refine ⟨fun p => mem_without.trans ?_, fun other p hp => ?_⟩
  · by_cases htag : p.tag = tag
    · simp only [Manager.delete, htag, update_self, reduceCtorEq, iff_false, not_and, not_not]
      intro hp
      have hheld := (h.listed p).mp hp
      rw [htag, hold] at hheld
      exact (some.inj hheld).symm
    · have hne : p ≠ old := fun heq => htag (heq ▸ h.tagged _ _ hold)
      simp only [Manager.delete, update_of_ne htag, h.listed p, hne, ne_eq, not_false_eq_true, and_true]
  · obtain ⟨-, ⟨⟩⟩ | ⟨-, hp⟩ := update_eq_some hp
    exact h.tagged other p hp

theorem remove_cases (m : Manager ο) (tag : String) (closes : Bool) : m.remove tag closes = (m, false) ∨
      ∃ old, m.outboundByTag tag = some old ∧ m.remove tag closes = (m.delete tag old, closes) := by
  unfold remove
  split
  · exact .inl rfl
  · next old hold =>
    split_ifs
    · exact .inl rfl
    · exact .inr ⟨old, hold, rfl⟩

theorem install_endpoint : (m.install o).endpoint = m.endpoint := by
  simp only [install]
  cases m.outboundByTag o.tag <;> rfl

theorem create_cases (m : Manager ο) (htag : tag ≠ "") (kind : String) (options : Option ο) (provided : Bool)
    (creation : Creation) : (m.create tag kind options provided creation = (m, false) ∧ creation.succeeds = false) ∨
    ∃ o : Outbound ο, o.tag = tag ∧ o.kind = kind ∧ o.options = options ∧ o.provided = provided ∧
      m.create tag kind options provided creation = (m.install o, (m.outboundByTag tag).isNone || creation.closes) := by
  unfold create
  rw [if_neg htag]
  cases hdependencies : creation.dependencies with
  | none => exact .inl ⟨rfl, by simp [Creation.succeeds, hdependencies]⟩
  | some dependencies =>
    cases hstarts : creation.starts with
    | true => exact .inr ⟨_, rfl, rfl, rfl, rfl, rfl⟩
    | false => exact .inl ⟨rfl, by simp [Creation.succeeds, hstarts]⟩

end Manager

variable {settings : Settings ο} {opt : Opt ο} {o : Outbound ο} {a : Adapter ο}

section Tags

theorem tagOf_ne_empty (i : ℕ) (opt : Opt ο) : settings.tagOf i opt ≠ "" := by
  unfold Settings.tagOf
  split_ifs
  all_goals simp [String.append_eq_empty_iff]

theorem tagOf_of_tag (h : opt.tag ≠ "") (i j : ℕ) : settings.tagOf i opt = settings.tagOf j opt := by
  rw [Settings.tagOf, Settings.tagOf, if_pos h, if_pos h]

theorem untagged_uniquifyFrom_of_seen {count : String → ℕ} (hseen : 0 < count "") (opts : List (Opt ο)) :
    ∀ opt ∈ uniquifyFrom count opts, opt.tag ≠ "" := by
  induction opts generalizing count with
  | nil => exact nofun
  | cons opt opts ih =>
    have hrest : 0 < update count opt.tag (count opt.tag + 1) "" := by
      by_cases htag : "" = opt.tag
      · rw [← htag, update_self]
        omega
      · rwa [update_of_ne htag]
    intro other hother
    rcases mem_cons.mp hother with rfl | hmem
    · split_ifs with hcount
      · simp [String.append_eq_empty_iff]
      · intro htag
        rw [htag] at hcount
        omega
    · exact ih hrest other hmem

theorem untagged_uniquifyFrom (count : String → ℕ) (opts : List (Opt ο)) :
    (uniquifyFrom count opts).countP (·.tag = "") ≤ 1 := by
  induction opts generalizing count with
  | nil => exact Nat.zero_le _
  | cons opt opts ih =>
    rw [uniquifyFrom, countP_cons]
    by_cases htag : opt.tag = ""
    · have hseen : 0 < update count opt.tag (count opt.tag + 1) "" := by
        rw [htag, update_self]
        omega
      have hzero : (uniquifyFrom (update count opt.tag (count opt.tag + 1)) opts).countP (·.tag = "") = 0 := by
        rw [countP_eq_zero]
        intro other hother
        simpa using untagged_uniquifyFrom_of_seen hseen opts other hother
      split_ifs <;> omega
    · have hfirst : decide ((if count opt.tag + 1 > 1 then
          { opt with tag := opt.tag ++ " #" ++ toString (count opt.tag + 1) } else opt).tag = "") = false := by
        split_ifs
        · simp [String.append_eq_empty_iff]
        · simpa using htag
      have hrest := ih (update count opt.tag (count opt.tag + 1))
      rw [hfirst]
      simpa using hrest

theorem untagged_prepare (opts : List (Opt ο)) : (settings.prepare opts).countP (·.tag = "") ≤ 1 := by
  rw [Settings.prepare, countP_map]
  exact untagged_uniquifyFrom _ _

end Tags

def CreatedFrom (o : Outbound ο) (entry : String × Opt ο) : Prop :=
  o.tag = entry.1 ∧ o.kind = entry.2.kind ∧ o.options = entry.2.options ∧ o.provided = true

namespace Adapter

variable {oldOpts : List (Opt ο)} {creations : ℕ → Creation} {m : Manager ο}

theorem oldOpt_mem (h : opt = oldOpt oldOpts opt.tag) (htag : opt.tag ≠ "") : opt ∈ oldOpts := by
  unfold oldOpt at h
  cases hfind : oldOpts.reverse.find? (·.tag = opt.tag) with
  | none =>
    rw [hfind, getD_none] at h
    exact absurd (congrArg Opt.tag h) htag
  | some old =>
    rw [hfind, getD_some] at h
    rw [h]
    exact mem_reverse.mp (mem_of_find?_eq_some hfind)

theorem oldOpt_untagged {old : Opt ο} (hsingle : oldOpts.countP (·.tag = "") ≤ 1) (hold : old ∈ oldOpts)
    (htag : old.tag = "") : oldOpt oldOpts "" = old := by
  unfold oldOpt
  cases hfind : oldOpts.reverse.find? (·.tag = "") with
  | none =>
    have hnone := find?_eq_none.mp hfind old (mem_reverse.mpr hold)
    simp [htag] at hnone
  | some other =>
    have hother := find?_some hfind
    exact eq_of_countP_le_one hsingle (mem_reverse.mp (mem_of_find?_eq_some hfind)) hold hother (by simpa using htag)

theorem getElem?_entries (opts : List (Opt ο)) (i : ℕ) :
    (settings.entries opts)[i]? = opts[i]?.map fun opt => (settings.tagOf i opt, opt) :=
  getElem?_mapIdx

/-- What is listed has distinct tags, is what the manager holds and is created from the options of its position, and the
manager holds nothing else that the provider has created. -/
structure Agrees (settings : Settings ο) (a : Adapter ο) : Prop where
  distinct : (a.outbounds.map Outbound.tag).Nodup
  held : ∀ o ∈ a.outbounds, a.manager.outbound o.tag = some o
  created : ∃ kept, kept.Sublist (settings.entries a.lastOutOpts) ∧ List.Forall₂ CreatedFrom a.outbounds kept
  complete : ∀ o, (o ∈ a.manager.outbounds ∨ ∃ tag, a.manager.outboundByTag tag = some o) → o.provided = true →
    o ∈ a.outbounds

structure Sound (settings : Settings ο) (a : Adapter ο) : Prop where
  wellFormed : a.manager.WellFormed
  distinct : ((settings.entries a.lastOutOpts).map Prod.fst).Nodup
  single : a.lastOutOpts.countP (·.tag = "") ≤ 1
  created : ∃ kept, kept.Sublist (settings.entries a.lastOutOpts) ∧ List.Forall₂ CreatedFrom a.outbounds kept
  held : ∀ o ∈ a.outbounds, a.manager.outboundByTag o.tag = some o
  settled : ∀ entry ∈ settings.entries a.lastOutOpts,
    a.manager.outbound entry.1 = none ∨ ∃ o ∈ a.outbounds, a.manager.outboundByTag entry.1 = some o
  complete : ∀ tag o, a.manager.outboundByTag tag = some o → o.provided = true → o ∈ a.outbounds

variable {outbounds : List (Outbound ο)} {entry : String × Opt ο} {kept : List (String × Opt ο)}

theorem tags_of_created (h : Forall₂ CreatedFrom outbounds kept) :
    outbounds.map Outbound.tag = kept.map Prod.fst := by
  induction h with
  | nil => rfl
  | cons hcreated _ ih => rw [map_cons, map_cons, hcreated.1, ih]

theorem exists_created (h : Forall₂ CreatedFrom outbounds kept) (ho : o ∈ outbounds) :
    ∃ entry ∈ kept, CreatedFrom o entry := by
  induction h with
  | nil => cases ho
  | cons hcreated _ ih =>
    rcases mem_cons.mp ho with rfl | hrest
    · exact ⟨_, mem_cons_self, hcreated⟩
    · obtain ⟨entry, hentry, hfrom⟩ := ih hrest
      exact ⟨entry, mem_cons_of_mem _ hentry, hfrom⟩

theorem Sound.agrees (h : Sound settings a) : Agrees settings a := by
  obtain ⟨kept, hkept, hfrom⟩ := h.created
  refine ⟨?_, fun o ho => ?_, h.created, fun o ho => ?_⟩
  · rw [tags_of_created hfrom]
    exact h.distinct.sublist (hkept.map Prod.fst)
  · rw [Manager.outbound, h.held o ho]
    rfl
  · rcases ho with hlisted | ⟨tag, htag⟩
    · exact h.complete o.tag o ((h.wellFormed.listed o).mp hlisted)
    · exact h.complete tag o htag

theorem sound_start (hwell : m.WellFormed)
    (hnone : ∀ tag o, m.outboundByTag tag = some o → o.provided = false) : Sound settings (start m) := by
  refine ⟨hwell, nodup_nil, Nat.zero_le _, ⟨[], .slnil, .nil⟩, nofun, nofun, fun tag o ho hprovided => ?_⟩
  rw [hnone tag o ho] at hprovided
  cases hprovided

theorem Sound.created_of_held (h : Sound settings a)
    (hentry : entry ∈ settings.entries a.lastOutOpts) (ho : a.manager.outbound entry.1 = some o) :
    a.manager.outboundByTag entry.1 = some o ∧ CreatedFrom o entry := by
  rcases h.settled entry hentry with hnone | ⟨p, hp, hheld⟩
  · rw [hnone] at ho
    cases ho
  · have hop : p = o := by
      rw [Manager.outbound, hheld] at ho
      exact some.inj ho
    subst hop
    obtain ⟨kept, hkept, hfrom⟩ := h.created
    obtain ⟨other, hother, hcreated⟩ := exists_created hfrom hp
    have htag : other.1 = entry.1 := hcreated.1.symm.trans (h.wellFormed.tagged _ _ hheld)
    rw [← inj_on_of_nodup_map h.distinct (hkept.subset hother) hentry htag]
    exact ⟨htag ▸ hheld, hcreated⟩

variable [DecidableEq ο] {next : Manager ο}

theorem updateEntry_spec {creation : Creation} (hwell : m.WellFormed) (hne : entry.1 ≠ "")
    (hsucceeds : (m.outbound entry.1).isSome = true → entry.2 ≠ oldOpt oldOpts entry.2.tag → creation.succeeds = true)
    (hreuse : ∀ o, m.outbound entry.1 = some o → entry.2 = oldOpt oldOpts entry.2.tag →
      m.outboundByTag entry.1 = some o ∧ CreatedFrom o entry) {out : Option (Outbound ο)}
    (hnext : updateEntry oldOpts entry.1 entry.2 creation m = (next, out)) :
    next.WellFormed ∧ next.endpoint = m.endpoint ∧
    (∀ tag, tag ≠ entry.1 → next.outboundByTag tag = m.outboundByTag tag) ∧
    ((out = none ∧ next.outbound entry.1 = none) ∨
      ∃ o, out = some o ∧ next.outboundByTag entry.1 = some o ∧ CreatedFrom o entry) := by
  unfold updateEntry at hnext
  split_ifs at hnext with hcreate
  · have hreplaces : (m.outbound entry.1).isSome = true → creation.succeeds = true := by
      intro hsome
      apply hsucceeds hsome
      rwa [isNone_eq_false_iff.mpr hsome, Bool.false_eq_true, false_or] at hcreate
    rcases m.create_cases hne entry.2.kind entry.2.options true creation with
      ⟨hfails, hnot⟩ | ⟨o, htag, hkind, hoptions, hprovided, hinstall⟩
    · simp only [hfails] at hnext
      cases hnext
      refine ⟨hwell, rfl, fun _ _ => rfl, .inl ⟨rfl, ?_⟩⟩
      cases hheld : m.outbound entry.1 with
      | none => rfl
      | some o =>
        rw [hreplaces (by simp [hheld])] at hnot
        cases hnot
    · have hok : ((m.outboundByTag entry.1).isNone || creation.closes) = true := by
        cases hheld : m.outboundByTag entry.1 with
        | none => rfl
        | some old =>
          have hall := hreplaces (by simp [Manager.outbound, hheld])
          simp only [Creation.succeeds, Bool.and_eq_true] at hall
          exact hall.2
      have hself : (m.install o).outboundByTag entry.1 = some o := by
        rw [← htag]
        exact update_self _ _ _
      simp only [hinstall, hok, if_true] at hnext
      cases hnext
      refine ⟨hwell.install, Manager.install_endpoint, fun tag hother => ?_, .inr ⟨o, ?_, hself, htag, hkind, hoptions, hprovided⟩⟩
      · exact update_of_ne (htag ▸ hother) _ _
      · rw [Manager.outbound, hself]
        rfl
  · cases hnext
    rw [not_or, not_not, isNone_iff_eq_none] at hcreate
    obtain ⟨o, ho⟩ := ne_none_iff_exists'.mp hcreate.1
    exact ⟨hwell, rfl, fun _ _ => rfl, .inr ⟨o, ho, hreuse o ho hcreate.2⟩⟩

theorem updateLoop_spec {entries : List (String × Opt ο)} {i : ℕ} (hwell : m.WellFormed)
    (hnodup : (entries.map Prod.fst).Nodup) (hne : ∀ entry ∈ entries, entry.1 ≠ "")
    (hsucceeds : ∀ k entry, entries[k]? = some entry → (m.outbound entry.1).isSome = true →
      entry.2 ≠ oldOpt oldOpts entry.2.tag → (creations (i + k)).succeeds = true)
    (hreuse : ∀ entry ∈ entries, ∀ o, m.outbound entry.1 = some o → entry.2 = oldOpt oldOpts entry.2.tag →
      m.outboundByTag entry.1 = some o ∧ CreatedFrom o entry) {last : Manager ο} {outs : List (Outbound ο)}
    (hloop : updateLoop oldOpts creations i entries m = (last, outs)) :
    last.WellFormed ∧ last.endpoint = m.endpoint ∧
    (∀ tag, tag ∉ entries.map Prod.fst → last.outboundByTag tag = m.outboundByTag tag) ∧
    (∃ kept, kept.Sublist entries ∧ Forall₂ CreatedFrom outs kept) ∧
    (∀ o ∈ outs, last.outboundByTag o.tag = some o) ∧
    ∀ entry ∈ entries, last.outbound entry.1 = none ∨ ∃ o ∈ outs, last.outboundByTag entry.1 = some o := by
  induction entries generalizing i m outs with
  | nil =>
    obtain ⟨rfl, rfl⟩ := Prod.mk.inj hloop
    exact ⟨hwell, rfl, fun _ _ => rfl, ⟨[], .slnil, .nil⟩, nofun, nofun⟩
  | cons entry entries ih =>
    cases hentry : updateEntry oldOpts entry.1 entry.2 (creations i) m with
    | mk next out =>
      cases hrest : updateLoop oldOpts creations (i + 1) entries next with
      | mk last' outs' =>
        simp only [updateLoop, hentry, hrest] at hloop
        obtain ⟨rfl, rfl⟩ := Prod.mk.inj hloop
        rw [map_cons, nodup_cons] at hnodup
        obtain ⟨hfresh, hnodup⟩ := hnodup
        obtain ⟨hwell', hendpoint, hothers, hout⟩ := updateEntry_spec hwell (hne entry mem_cons_self)
          (hsucceeds 0 entry rfl) (hreuse entry mem_cons_self) hentry
        -- what comes later finds the manager as it was
        have hsame : ∀ other ∈ entries, next.outboundByTag other.1 = m.outboundByTag other.1 ∧
            next.outbound other.1 = m.outbound other.1 := by
          intro other hother
          have htag : other.1 ≠ entry.1 := fun heq => hfresh (heq ▸ List.mem_map_of_mem hother)
          refine ⟨hothers _ htag, ?_⟩
          rw [Manager.outbound, Manager.outbound, hothers _ htag, hendpoint]
        obtain ⟨hlast, hlastEndpoint, hlastOthers, ⟨kept, hkept, hfrom⟩, hheld, hsettled⟩ := ih hwell' hnodup
          (fun other hother => hne other (mem_cons_of_mem entry hother))
          (fun k other hother hsome hchanged => by
            rw [(hsame other (mem_of_getElem? hother)).2] at hsome
            have hlater := hsucceeds (k + 1) other hother hsome hchanged
            rwa [← Nat.add_assoc, Nat.add_right_comm] at hlater)
          (fun other hother o ho hold => by
            rw [(hsame other hother).2] at ho
            rw [(hsame other hother).1]
            exact hreuse other (mem_cons_of_mem entry hother) o ho hold) hrest
        have hself : last'.outboundByTag entry.1 = next.outboundByTag entry.1 := hlastOthers entry.1 hfresh
        refine ⟨hlast, hlastEndpoint.trans hendpoint, fun tag htag => ?_, ?_⟩
        · rw [map_cons, mem_cons, not_or] at htag
          rw [hlastOthers tag htag.2, hothers tag htag.1]
        rcases hout with ⟨rfl, hnone⟩ | ⟨o, rfl, ho, hcreated⟩
        · refine ⟨⟨kept, .cons _ hkept, hfrom⟩, hheld, forall_mem_cons.mpr ⟨.inl ?_, hsettled⟩⟩
          rwa [Manager.outbound, hself, hlastEndpoint]
        · have hofirst : last'.outboundByTag entry.1 = some o := hself.trans ho
          refine ⟨⟨entry :: kept, .cons_cons _ hkept, .cons hcreated hfrom⟩, ?_, forall_mem_cons.mpr ⟨.inr ?_, ?_⟩⟩
          · exact forall_mem_cons.mpr ⟨hcreated.1 ▸ hofirst, hheld⟩
          · exact ⟨o, mem_cons_self, hofirst⟩
          · intro other hother
            exact (hsettled other hother).imp_right fun ⟨p, hp, hlisted⟩ => ⟨p, mem_cons_of_mem o hp, hlisted⟩

theorem removeUseless_spec {tags : List String} {closes : String → Bool}
    (hwell : m.WellFormed) {ok : Bool} (hnext : removeUseless tags closes outbounds m = (next, ok)) :
    next.WellFormed ∧ next.endpoint = m.endpoint ∧
    (∀ tag, next.outboundByTag tag = m.outboundByTag tag ∨ tag ∉ tags ∧ next.outboundByTag tag = none) ∧
    (ok = true → ∀ o ∈ outbounds, o.tag ∉ tags → next.outboundByTag o.tag = none) := by
  induction outbounds generalizing m ok with
  | nil =>
    cases hnext
    exact ⟨hwell, rfl, fun _ => .inl rfl, fun _ => nofun⟩
  | cons o outbounds ih =>
    rw [removeUseless] at hnext
    split_ifs at hnext with huseful
    · obtain ⟨hwell', hendpoint, htags, hgone⟩ := ih hwell hnext
      exact ⟨hwell', hendpoint, htags, fun hok => forall_mem_cons.mpr ⟨absurd huseful, hgone hok⟩⟩
    · rcases Manager.remove_cases m o.tag (closes o.tag) with hfails | ⟨old, hold, hremoves⟩
      · cases hrest : removeUseless tags closes outbounds m with
        | mk last allOk =>
          simp only [hfails, hrest] at hnext
          cases hnext
          obtain ⟨hwell', hendpoint, htags, -⟩ := ih hwell hrest
          exact ⟨hwell', hendpoint, htags, nofun⟩
      · cases hrest : removeUseless tags closes outbounds (m.delete o.tag old) with
        | mk last allOk =>
          simp only [hremoves, hrest] at hnext
          cases hnext
          obtain ⟨hwell', hendpoint, htags, hgone⟩ := ih (hwell.delete hold) hrest
          have hdeleted : (m.delete o.tag old).outboundByTag o.tag = none := update_self _ _ _
          refine ⟨hwell', hendpoint, fun tag => ?_, fun hok => forall_mem_cons.mpr ⟨fun _ => ?_, ?_⟩⟩
          · by_cases htag : tag = o.tag
            · subst htag
              exact .inr ⟨huseful, ((htags o.tag).imp_left fun h => h.trans hdeleted).elim id And.right⟩
            · rw [← show (m.delete o.tag old).outboundByTag tag = m.outboundByTag tag from update_of_ne htag _ _]
              exact htags tag
          · exact (htags o.tag).elim (fun h => h.trans hdeleted) And.right
          · exact hgone (Bool.and_eq_true _ _ ▸ hok).2

variable (settings : Settings ο)

def removes (a : Adapter ο) (update : Update ο) : Bool :=
  (removeUseless ((settings.entries (settings.prepare update.newOpts)).map Prod.fst) update.closes a.outbounds a.manager).2

def safeEntry (a : Adapter ο) (update : Update ο) (i : ℕ) (entry : String × Opt ο) : Bool :=
  (a.manager.outbound entry.1).isNone ||
    ((update.creations i).succeeds || decide (entry.2 = oldOpt a.lastOutOpts entry.2.tag)) &&
      (decide (entry.2.tag ≠ "") || a.lastOutOpts[i]?.any (·.tag = ""))

def agreeable (a : Adapter ο) (update : Update ο) : Bool :=
  let entries := settings.entries (settings.prepare update.newOpts)
  decide (entries.map Prod.fst).Nodup && entries.zipIdx.all fun entry => safeEntry a update entry.2 entry.1

variable {settings} {update : Update ο}

theorem Sound.entry_before {i : ℕ} (h : Sound settings a)
    (hentry : (settings.entries (settings.prepare update.newOpts))[i]? = some entry)
    (hsafe : safeEntry a update i entry = true) (hheld : (a.manager.outbound entry.1).isSome = true)
    (hsame : entry.2 = oldOpt a.lastOutOpts entry.2.tag) : entry ∈ settings.entries a.lastOutOpts := by
  rw [getElem?_entries, map_eq_some_iff] at hentry
  obtain ⟨opt, -, rfl⟩ := hentry
  by_cases htag : opt.tag = ""
  · simp only [safeEntry, isNone_eq_false_iff.mpr hheld, Bool.false_or, Bool.and_eq_true, htag, ne_eq,
      not_true_eq_false, decide_false, Option.any_eq_true, decide_eq_true_eq] at hsafe
    obtain ⟨old, hold, hempty⟩ := hsafe.2
    have hopt : opt = old := by
      simp only [htag] at hsame
      exact hsame.trans (oldOpt_untagged h.single (mem_of_getElem? hold) hempty)
    subst hopt
    exact mem_of_getElem? (by rw [getElem?_entries, hold]; rfl)
  · obtain ⟨j, hj⟩ := mem_iff_getElem?.mp (oldOpt_mem hsame htag)
    apply mem_of_getElem?
    rw [getElem?_entries, hj, tagOf_of_tag htag i j]
    rfl

theorem Sound.updateOutbounds (h : Sound settings a) (hremoves : removes settings a update = true)
    (hagreeable : agreeable settings a update = true) : Sound settings (a.updateOutbounds settings update) := by
  simp only [agreeable, Bool.and_eq_true, decide_eq_true_eq, List.all_eq_true] at hagreeable
  obtain ⟨hdistinct, hsafe⟩ := hagreeable
  unfold removes at hremoves
  generalize hentries : settings.entries (settings.prepare update.newOpts) = entries at *
  cases huseful : removeUseless (entries.map Prod.fst) update.closes a.outbounds a.manager with
  | mk useful ok =>
    cases hloop : updateLoop a.lastOutOpts update.creations 0 entries useful with
    | mk manager outs =>
      rw [huseful] at hremoves
      obtain ⟨hwell, hendpoint, htags, hgone⟩ := removeUseless_spec h.wellFormed huseful
      have hbyTag : ∀ entry ∈ entries, useful.outboundByTag entry.1 = a.manager.outboundByTag entry.1 := by
        intro entry hentry
        exact (htags entry.1).resolve_right fun hnot => hnot.1 (List.mem_map_of_mem hentry)
      have houtbound : ∀ entry ∈ entries, useful.outbound entry.1 = a.manager.outbound entry.1 := by
        intro entry hentry
        rw [Manager.outbound, Manager.outbound, hbyTag entry hentry, hendpoint]
      have hsafeAt : ∀ i entry, entries[i]? = some entry → safeEntry a update i entry = true := by
        intro i entry hentry
        exact hsafe (entry, i) (mk_mem_zipIdx_iff_getElem?.mpr hentry)
      have hne : ∀ entry ∈ entries, entry.1 ≠ "" := by
        intro entry hentry
        obtain ⟨i, hi⟩ := mem_iff_getElem?.mp hentry
        rw [← hentries, getElem?_entries, map_eq_some_iff] at hi
        obtain ⟨opt, -, rfl⟩ := hi
        exact tagOf_ne_empty i opt
      have hsucceeds : ∀ i entry, entries[i]? = some entry → (useful.outbound entry.1).isSome = true →
          entry.2 ≠ oldOpt a.lastOutOpts entry.2.tag → (update.creations (0 + i)).succeeds = true := by
        intro i entry hentry hheld hchanged
        have hat := hsafeAt i entry hentry
        rw [houtbound entry (mem_of_getElem? hentry)] at hheld
        simp only [safeEntry, isNone_eq_false_iff.mpr hheld, Bool.false_or, Bool.and_eq_true, hchanged,
          decide_false, Bool.or_false] at hat
        rw [Nat.zero_add]
        exact hat.1
      have hreuse : ∀ entry ∈ entries, ∀ o, useful.outbound entry.1 = some o →
          entry.2 = oldOpt a.lastOutOpts entry.2.tag → useful.outboundByTag entry.1 = some o ∧ CreatedFrom o entry := by
        intro entry hentry o ho hsame
        obtain ⟨i, hi⟩ := mem_iff_getElem?.mp hentry
        rw [houtbound entry hentry] at ho
        rw [hbyTag entry hentry]
        apply h.created_of_held _ ho
        exact h.entry_before (hentries ▸ hi) (hsafeAt i entry hi) (by rw [ho]; rfl) hsame
      obtain ⟨hwell', -, hothers, hcreated, hheld, hsettled⟩ :=
        updateLoop_spec hwell hdistinct hne hsucceeds hreuse hloop
      simp only [Adapter.updateOutbounds, hentries, huseful, hloop]
      refine ⟨hwell', ?_, untagged_prepare _, ?_, hheld, ?_, fun tag o ho hprovided => ?_⟩
      · rwa [hentries]
      · rwa [hentries]
      · rwa [hentries]
      by_cases htag : tag ∈ entries.map Prod.fst
      · obtain ⟨entry, hentry, rfl⟩ := List.mem_map.mp htag
        rcases hsettled entry hentry with hnone | ⟨p, hp, hlisted⟩
        · rw [Manager.outbound, ho] at hnone
          cases hnone
        · rw [ho] at hlisted
          exact some.inj hlisted ▸ hp
      · -- what the provider had under another tag has been removed
        rw [hothers tag htag] at ho
        rcases htags tag with hkept | ⟨-, hnone⟩
        · have hlisted := h.complete tag o (hkept ▸ ho) hprovided
          have hotag : o.tag = tag := hwell.tagged tag o ho
          rw [← hotag, hgone hremoves o hlisted (hotag ▸ htag)] at ho
          cases ho
        · rw [hnone] at ho
          cases ho

theorem updates_agree {m : Manager ο} {updates : List (Update ο)} (hwell : m.WellFormed)
    (hnone : ∀ tag o, m.outboundByTag tag = some o → o.provided = false)
    (hrun : Run (step settings) (fun a update => removes settings a update && agreeable settings a update)
      (start m) updates a) : Agrees settings a := by
  apply Sound.agrees
  refine hrun.invariant (fun {s update s'} h hcond hs => ?_) (sound_start hwell hnone)
  rw [Bool.and_eq_true] at hcond
  cases hs
  exact h.updateOutbounds hcond.1 hcond.2

section Runs

def plain : Settings ℕ := ⟨"p", id, id⟩

def created : Creation := ⟨some [], true, true⟩

def provide (options : List (String × ℕ)) (creations : ℕ → Creation) : Update ℕ :=
  ⟨options.map fun option => ⟨option.1, "k", some option.2⟩, creations, fun _ => true⟩

def changes : List (Update ℕ) :=
  [provide [("a", 1), ("", 2), ("a", 3)] fun _ => created, provide [("a", 1), ("", 4), ("b", 5)] fun _ => created]

theorem updates_agree_changes : ∃ a : Adapter ℕ,
    Run (step plain) (fun a update => removes plain a update && agreeable plain a update)
      (start (.new (fun _ => none) "")) changes a ∧
    Agrees plain a ∧ a.outbounds.map (fun o => (o.tag, o.options)) = [("p/a", some 1), ("p/1", some 4), ("p/b", some 5)] := by
  refine (Run.exists_of_decideWhile ?_).imp
    fun a ⟨hrun, ha⟩ => ⟨hrun, updates_agree (Manager.wellFormed_new _ _) nofun hrun, ha⟩
  decide +kernel

def repeated : List (Update ℕ) := [provide [("a", 1), ("a", 2), ("a #2", 3)] fun _ => created]

def failing : List (Update ℕ) := [provide [("a", 1)] fun _ => created, provide [("a", 2)] fun _ => ⟨none, true, true⟩]

def moving : List (Update ℕ) :=
  [provide [("0", 1), ("", 2)] fun _ => created, provide [("", 2)] fun _ => created]

theorem updates_disagree :
    (∃ a : Adapter ℕ, Run (step plain) (removes plain · ·) (start (.new (fun _ => none) "")) repeated a ∧
      ¬(a.outbounds.map Outbound.tag).Nodup) ∧
    (∃ a : Adapter ℕ, Run (step plain) (removes plain · ·) (start (.new (fun _ => none) "")) failing a ∧
      ∃ o ∈ a.manager.outbounds, o.provided = true ∧ o ∉ a.outbounds) ∧
    ∃ a : Adapter ℕ, Run (step plain) (removes plain · ·) (start (.new (fun _ => none) "")) moving a ∧
      ∃ o ∈ a.outbounds, o.options = some 1 ∧ a.lastOutOpts = [⟨"", "k", some 2⟩] := by
  refine ⟨Run.exists_of_decideWhile ?_, Run.exists_of_decideWhile ?_, Run.exists_of_decideWhile ?_⟩
  all_goals decide +kernel

end Runs

end Adapter

end Hydracore.Provider
