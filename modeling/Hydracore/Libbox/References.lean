import Hydracore.Formats.Json

namespace Hydracore.Libbox

open Formats List

inductive Segment
  | name (text : String)
  | index (i : ℕ)
deriving DecidableEq

structure Spot where
  segments : List Segment
deriving DecidableEq

namespace Spot

def root : Spot := ⟨[]⟩

def field (spot : Spot) (name : String) : Spot := ⟨spot.segments ++ [.name name]⟩

def index (spot : Spot) (i : ℕ) : Spot := ⟨spot.segments ++ [.index i]⟩

end Spot

/-- The code and message of an error of the policy. -/
inductive Check
  | remoteTooLarge
  | jsonTooDeep
  | duplicateJSONKey
  | remoteNotObject
  | topLevelField
  | objectList
  | missingType
  | missingTag
  | reservedTag
  | inboundType
  | outboundType
  | endpointType
  | localAuthorityField
  | duplicateTag
  | missingReference
  | missingInboundReference
  | referenceCycle
  | reference
  | outboundsArray
  | outboundsItem
deriving DecidableEq

structure PolicyError where
  check : Check
  spot : Spot
deriving DecidableEq

variable {key : String} {v : Json}

def isTagField (key : String) : Bool := key = "detour" ∨ key = "outbound" ∨ key = "endpoint"

def isReferenceField (key : String) : Bool := isTagField key || key = "outbounds"

def IsTag (v : Json) : Prop := v = .null ∨ ∃ tag, v = .string tag

def IsTagList (v : Json) : Prop := ∃ tags : List String, v = .array (tags.map .string)

inductive Finds (p : String → Json → Prop) : Json → Prop
  | here {entries : List (String × Json)} {key : String} {v : Json} (mem : (key, v) ∈ entries)
      (isField : isReferenceField key = true) (found : p key v) : Finds p (.object entries)
  | deeper {entries : List (String × Json)} {key : String} {v : Json} (mem : (key, v) ∈ entries)
      (isPlain : isReferenceField key = false) (inner : Finds p v) : Finds p (.object entries)
  | item {items : List Json} {v : Json} (mem : v ∈ items) (inner : Finds p v) : Finds p (.array items)

def Names (tag key : String) (v : Json) : Prop :=
  tag ≠ "" ∧ (isTagField key = true ∧ v = .string tag ∨
    key = "outbounds" ∧ ∃ tags : List String, v = .array (tags.map .string) ∧ tag ∈ tags)

def Mistyped (key : String) (v : Json) : Prop :=
  isTagField key = true ∧ ¬ IsTag v ∨ key = "outbounds" ∧ ¬ IsTagList v

def References (v : Json) (tag : String) : Prop := Finds (Names tag) v

def WellTyped (v : Json) : Prop := ¬ Finds Mistyped v

inductive Reordered : Json → Json → Prop
  | refl (v : Json) : Reordered v v
  | trans {u v w : Json} (first : Reordered u v) (second : Reordered v w) : Reordered u w
  | perm {entries entries' : List (String × Json)} (perm : entries.Perm entries') :
      Reordered (.object entries) (.object entries')
  | entry {v w : Json} (before : List (String × Json)) (key : String) (after : List (String × Json))
      (inner : Reordered v w) :
      Reordered (.object (before ++ (key, v) :: after)) (.object (before ++ (key, w) :: after))
  | item {v w : Json} (before after : List Json) (inner : Reordered v w) :
      Reordered (.array (before ++ v :: after)) (.array (before ++ w :: after))

namespace Reordered

variable {v w : Json}

section

variable (h : Reordered v w)
include h

theorem symm : Reordered w v := by
  induction h with
  | refl v => exact .refl v
  | trans _ _ ihuv ihvw => exact .trans ihvw ihuv
  | perm perm => exact .perm perm.symm
  | entry before key after _ ih => exact .entry before key after ih
  | item before after _ ih => exact .item before after ih

theorem eq_of_isTag (htag : IsTag v) : w = v := by
  induction h with
  | refl v => rfl
  | trans _ _ ihuv ihvw =>
    obtain rfl := ihuv htag
    exact ihvw htag
  | perm _ | entry _ _ _ _ _ | item _ _ _ _ => rcases htag with htag | ⟨_, htag⟩ <;> cases htag

theorem eq_of_isTagList (htags : IsTagList v) : w = v := by
  induction h with
  | refl v => rfl
  | trans _ _ ihuv ihvw =>
    obtain rfl := ihuv htags
    exact ihvw htags
  | perm _ | entry _ _ _ _ _ =>
    obtain ⟨_, htags⟩ := htags
    cases htags
  | @item v w before after inner _ =>
    obtain ⟨tags, htags⟩ := htags
    have hmem : v ∈ tags.map Json.string := by
      rw [← Json.array.inj htags]
      exact mem_append_right before mem_cons_self
    obtain ⟨tag, -, rfl⟩ := mem_map.mp hmem
    rw [inner.eq_of_isTag (.inr ⟨tag, rfl⟩)]

theorem names {tag key : String} (hnames : Names tag key v) : Names tag key w := by
  obtain ⟨htag, ⟨hkey, rfl⟩ | ⟨hkey, tags, rfl, hmem⟩⟩ := hnames
  · exact ⟨htag, .inl ⟨hkey, h.eq_of_isTag (.inr ⟨tag, rfl⟩)⟩⟩
  · exact ⟨htag, .inr ⟨hkey, tags, h.eq_of_isTagList ⟨tags, rfl⟩, hmem⟩⟩

theorem mistyped (hbad : Mistyped key v) : Mistyped key w := by
  refine hbad.imp (And.imp_right fun hv hw => hv ?_) (And.imp_right fun hv hw => hv ?_)
  · rwa [h.symm.eq_of_isTag hw]
  · rwa [h.symm.eq_of_isTagList hw]

theorem finds {p : String → Json → Prop}
    (hp : ∀ {key v w}, Reordered v w → p key v → p key w) (hfinds : Finds p v) : Finds p w := by
  induction h with
  | refl v => exact hfinds
  | trans _ _ ihuv ihvw => exact ihvw (ihuv hfinds)
  | perm perm =>
    cases hfinds with
    | here mem key found => exact .here (perm.mem_iff.mp mem) key found
    | deeper mem key inner => exact .deeper (perm.mem_iff.mp mem) key inner
  | @entry v w before key after inner ih =>
    have hback : (key, w) ∈ before ++ (key, w) :: after := mem_append_right before mem_cons_self
    have hkept : ∀ {e}, e ∈ before ++ (key, v) :: after → e = (key, v) ∨ e ∈ before ++ (key, w) :: after := by
      intro e
      simp only [mem_append, mem_cons]
      tauto
    cases hfinds with
    | here mem hkey found =>
      rcases hkept mem with heq | mem
      · cases heq
        exact .here hback hkey (hp inner found)
      · exact .here mem hkey found
    | deeper mem hkey hinner =>
      rcases hkept mem with heq | mem
      · cases heq
        exact .deeper hback hkey (ih hinner)
      · exact .deeper mem hkey hinner
  | @item v w before after _ ih =>
    cases hfinds with
    | item mem hinner =>
      simp only [mem_append, mem_cons] at mem
      rcases mem with mem | rfl | mem
      · exact .item (mem_append_left _ mem) hinner
      · exact .item (mem_append_right before mem_cons_self) (ih hinner)
      · exact .item (mem_append_right before (mem_cons_of_mem _ mem)) hinner

theorem references_iff (tag : String) : References v tag ↔ References w tag :=
  ⟨h.finds fun hvw => hvw.names, h.symm.finds fun hvw => hvw.names⟩

theorem wellTyped (hv : WellTyped v) : WellTyped w := fun hw => hv (h.symm.finds (fun hvw => hvw.mistyped) hw)

end

end Reordered

section Finds

variable {p : String → Json → Prop}

theorem finds_cons (e : String × Json) (rest : List (String × Json)) :
    Finds p (.object (e :: rest)) ↔ Finds p (.object [e]) ∨ Finds p (.object rest) := by
  constructor
  · intro h
    cases h with
    | here mem key found =>
      rcases mem_cons.mp mem with rfl | mem
      · exact .inl (.here mem_cons_self key found)
      · exact .inr (.here mem key found)
    | deeper mem key inner =>
      rcases mem_cons.mp mem with rfl | mem
      · exact .inl (.deeper mem_cons_self key inner)
      · exact .inr (.deeper mem key inner)
  · have hsub : ∀ {small}, small ⊆ e :: rest → Finds p (.object small) → Finds p (.object (e :: rest)) := by
      intro small hsmall h
      cases h with
      | here mem key found => exact .here (hsmall mem) key found
      | deeper mem key inner => exact .deeper (hsmall mem) key inner
    rintro (h | h)
    · exact hsub (by simp) h
    · exact hsub (subset_cons_self e rest) h

theorem finds_field (h : isReferenceField key = true) : Finds p (.object [(key, v)]) ↔ p key v := by
  constructor
  · intro hfinds
    cases hfinds with
    | here mem _ found =>
      obtain ⟨rfl, rfl⟩ := Prod.mk.inj (mem_singleton.mp mem)
      exact found
    | deeper mem hkey _ =>
      obtain ⟨rfl, rfl⟩ := Prod.mk.inj (mem_singleton.mp mem)
      rw [h] at hkey
      cases hkey
  · exact .here mem_cons_self h

theorem finds_below (h : isReferenceField key = false) : Finds p (.object [(key, v)]) ↔ Finds p v := by
  constructor
  · intro hfinds
    cases hfinds with
    | here mem hkey _ =>
      obtain ⟨rfl, rfl⟩ := Prod.mk.inj (mem_singleton.mp mem)
      rw [h] at hkey
      cases hkey
    | deeper mem _ inner =>
      obtain ⟨rfl, rfl⟩ := Prod.mk.inj (mem_singleton.mp mem)
      exact inner
  · exact .deeper mem_cons_self h

theorem finds_array_cons (v : Json) (rest : List Json) :
    Finds p (.array (v :: rest)) ↔ Finds p v ∨ Finds p (.array rest) := by
  constructor
  · intro h
    cases h with
    | item mem inner =>
      rcases mem_cons.mp mem with rfl | mem
      · exact .inl inner
      · exact .inr (.item mem inner)
  · rintro (h | h)
    · exact .item mem_cons_self h
    · cases h with
      | item mem inner => exact .item (mem_cons_of_mem v mem) inner

end Finds

def addReference (references : List String) (reference : String) : List String :=
  if reference ≠ "" ∧ reference ∉ references then references ++ [reference] else references

theorem mem_addReference {references : List String} {reference tag : String} :
    tag ∈ addReference references reference ↔ tag ∈ references ∨ tag ≠ "" ∧ tag = reference := by
  unfold addReference
  split_ifs with h
  · rw [mem_append, mem_singleton]
    constructor
    · rintro (hmem | rfl)
      · exact .inl hmem
      · exact .inr ⟨h.1, rfl⟩
    · rintro (hmem | ⟨-, rfl⟩)
      · exact .inl hmem
      · exact .inr rfl
  · constructor
    · exact .inl
    · rintro (hmem | ⟨htag, rfl⟩)
      · exact hmem
      · by_contra hmem
        exact h ⟨htag, hmem⟩

def collectTag (spot : Spot) (references : List String) : Json → Except PolicyError (List String)
  | .null => .ok references
  | .string reference => .ok (addReference references reference)
  | _ => .error ⟨.reference, spot⟩

def collectListed (spot : Spot) (references : List String) : List Json → Except PolicyError (List String)
  | [] => .ok references
  | .string reference :: values => collectListed spot (addReference references reference) values
  | _ :: _ => .error ⟨.outboundsItem, spot⟩

def collectTags (spot : Spot) (references : List String) : Json → Except PolicyError (List String)
  | .array values => collectListed spot references values
  | _ => .error ⟨.outboundsArray, spot⟩

mutual

def collect (spot : Spot) (references : List String) : Json → Except PolicyError (List String)
  | .object entries => collectEntries spot references entries
  | .array items => collectItems spot references 0 items
  | _ => .ok references

def collectEntries (spot : Spot) (references : List String) :
    List (String × Json) → Except PolicyError (List String)
  | [] => .ok references
  | (key, child) :: rest => do
    let references ←
      if isTagField key then collectTag (spot.field key) references child
      else if key = "outbounds" then collectTags (spot.field key) references child
      else collect (spot.field key) references child
    collectEntries spot references rest

def collectItems (spot : Spot) (references : List String) (i : ℕ) : List Json → Except PolicyError (List String)
  | [] => .ok references
  | child :: rest => do
    let references ← collect (spot.index i) references child
    collectItems spot references (i + 1) rest

end

theorem collectEntries_cons (spot : Spot) (references : List String) (key : String) (child : Json)
    (rest : List (String × Json)) : collectEntries spot references ((key, child) :: rest) =
      (if isTagField key then collectTag (spot.field key) references child
        else if key = "outbounds" then collectTags (spot.field key) references child
        else collect (spot.field key) references child) >>= (collectEntries spot · rest) := by
  rw [collectEntries]
  split_ifs <;> rfl

def Collects (collection : List String → Except PolicyError (List String)) (added : String → Prop) : Prop :=
  ∀ references, ∃ references', collection references = .ok references' ∧
    ∀ tag, tag ∈ references' ↔ tag ∈ references ∨ added tag

namespace Collects

theorem bind {first second : List String → Except PolicyError (List String)} {p q : String → Prop}
    (hfirst : Collects first p) (hsecond : Collects second q) :
    Collects (fun references => first references >>= second) fun tag => p tag ∨ q tag := by
  intro references
  obtain ⟨mid, hmid, hp⟩ := hfirst references
  obtain ⟨last, hlast, hq⟩ := hsecond mid
  refine ⟨last, ?_, fun tag => ?_⟩
  · simp only [hmid]
    exact hlast
  · rw [hq, hp, or_assoc]

theorem congr {collection : List String → Except PolicyError (List String)} {p q : String → Prop}
    (h : Collects collection p) (hpq : ∀ tag, q tag ↔ p tag) : Collects collection q := by
  intro references
  obtain ⟨references', hok, hmem⟩ := h references
  refine ⟨references', hok, fun tag => ?_⟩
  rw [hmem, hpq]

theorem nothing {added : String → Prop} (h : ∀ tag, ¬ added tag) : Collects .ok added := by
  intro references
  refine ⟨references, rfl, fun tag => ?_⟩
  rw [or_iff_left (h tag)]

end Collects

theorem collectTag_collects (spot : Spot) (h : IsTag v) :
    Collects (collectTag spot · v) fun tag => tag ≠ "" ∧ v = .string tag := by
  intro references
  rcases h with rfl | ⟨reference, rfl⟩
  · refine ⟨references, rfl, fun tag => ?_⟩
    simp
  · refine ⟨_, rfl, fun tag => ?_⟩
    rw [mem_addReference]
    simp only [Json.string.injEq, eq_comm]

theorem collectListed_collects (spot : Spot) (tags : List String) :
    Collects (collectListed spot · (tags.map .string)) fun tag => tag ≠ "" ∧ tag ∈ tags := by
  induction tags with
  | nil => exact Collects.nothing fun tag h => absurd h.2 not_mem_nil
  | cons first rest ih =>
    intro references
    obtain ⟨references', hok, hmem⟩ := ih (addReference references first)
    refine ⟨references', hok, fun tag => ?_⟩
    simp only [hmem, mem_addReference, mem_cons]
    tauto

theorem names_tagField (h : isTagField key = true) (v : Json) (tag : String) :
    Names tag key v ↔ tag ≠ "" ∧ v = .string tag := by
  have hlist : key ≠ "outbounds" := by
    rintro rfl
    revert h
    decide
  simp [Names, h, hlist]

theorem names_outbounds (tags : List String) (tag : String) :
    Names tag "outbounds" (.array (tags.map .string)) ↔ tag ≠ "" ∧ tag ∈ tags := by
  have hinj : Function.Injective Json.string := fun a b hab => Json.string.inj hab
  have hkey : isTagField "outbounds" = false := by decide
  simp [Names, hkey, (map_injective_iff.mpr hinj).eq_iff]

theorem entry_collects (spot : Spot) (hwell : WellTyped (.object [(key, v)]))
    (hv : WellTyped v → ∀ spot, Collects (collect spot · v) (References v)) : Collects (fun references =>
      if isTagField key then collectTag (spot.field key) references v
      else if key = "outbounds" then collectTags (spot.field key) references v
      else collect (spot.field key) references v) (References (.object [(key, v)])) := by
  by_cases htag : isTagField key = true
  · have hkey : isReferenceField key = true := by simp [isReferenceField, htag]
    have hv : IsTag v := by
      by_contra hv
      exact hwell ((finds_field hkey).mpr (.inl ⟨htag, hv⟩))
    simp only [htag, if_true]
    apply (collectTag_collects _ hv).congr
    intro tag
    exact (finds_field hkey).trans (names_tagField htag v tag)
  by_cases hlist : key = "outbounds"
  · subst hlist
    have hkey : isReferenceField "outbounds" = true := by decide
    have hv : IsTagList v := by
      by_contra hv
      exact hwell ((finds_field hkey).mpr (.inr ⟨rfl, hv⟩))
    obtain ⟨tags, rfl⟩ := hv
    apply (collectListed_collects _ tags).congr
    intro tag
    exact (finds_field hkey).trans (names_outbounds tags tag)
  · have hkey : isReferenceField key = false := by simp [isReferenceField, htag, hlist]
    simp only [htag, hlist, if_false]
    apply (hv (fun hill => hwell ((finds_below hkey).mpr hill)) _).congr
    intro tag
    exact finds_below hkey

theorem collect_collects (v : Json) (hwell : WellTyped v) (spot : Spot) :
    Collects (collect spot · v) (References v) := by
  induction v using Json.induction generalizing spot with
  | null | bool _ | number _ | string _ => exact Collects.nothing fun _ h => by cases h
  | array items ih =>
    suffices ∀ i, Collects (collectItems spot · i items) (References (.array items)) from this 0
    induction items with
    | nil => exact fun _ => Collects.nothing fun _ h => by cases h with | item mem _ => cases mem
    | cons first rest ihrest =>
      intro i
      obtain ⟨hfirst, hrest⟩ := forall_mem_cons.mp ih
      have hwell' := not_or.mp fun h => hwell ((finds_array_cons first rest).mpr h)
      exact ((hfirst hwell'.1 _).bind (ihrest hrest hwell'.2 (i + 1))).congr fun tag => finds_array_cons first rest
  | object entries ih =>
    suffices Collects (collectEntries spot · entries) (References (.object entries)) from this
    induction entries with
    | nil =>
      refine Collects.nothing fun _ h => ?_
      cases h with
      | here mem _ _ => cases mem
      | deeper mem _ _ => cases mem
    | cons first rest ihrest =>
      obtain ⟨hfirst, hrest⟩ := forall_mem_cons.mp ih
      have hwell' := not_or.mp fun h => hwell ((finds_cons first rest).mpr h)
      obtain ⟨key, child⟩ := first
      simp only [collectEntries_cons]
      exact ((entry_collects spot hwell'.1 hfirst).bind (ihrest hrest hwell'.2)).congr fun tag => finds_cons _ rest

def remoteObjectReferences (raw : List (String × Json)) : Except PolicyError (List String) :=
  collectEntries .root [] raw

theorem exists_remoteObjectReferences {raw : List (String × Json)} (h : WellTyped (.object raw)) :
    ∃ references, remoteObjectReferences raw = .ok references ∧
      ∀ tag, tag ∈ references ↔ References (.object raw) tag := by
  obtain ⟨references, hok, hmem⟩ := collect_collects _ h .root []
  refine ⟨references, hok, fun tag => ?_⟩
  rw [hmem, or_iff_right not_mem_nil]

end Hydracore.Libbox
