import Mathlib.Data.Int.Notation
import Mathlib.Data.List.Nodup
import Mathlib.Data.List.Perm.Basic

namespace Hydracore.Daemon.URLTest

open List

structure Outbound where
  tag : String
  all : Option (List String)
  now : String

abbrev Manager := List (String × Outbound)

def Manager.outbound (manager : Manager) (tag : String) : Option Outbound := manager.lookup tag

structure Target where
  tag : String
  resultTag : String
deriving DecidableEq

def Target.managedResultTag (target : Target) : String :=
  if target.resultTag ≠ "" then target.resultTag else target.tag

/-- The walk below one tag; `visiting` are the groups it is in, so its depth is at most the number of outbounds. -/
def visit (manager : Manager) : ℕ → List String → List Target → String → Except String (List Target)
  | 0, _, _, tag => .error ("cyclic outbound group reference: " ++ tag)
  | depth + 1, visiting, targets, tag =>
    match manager.outbound tag with
    | none => .error ("outbound not found: " ++ tag)
    | some outbound =>
      match outbound.all with
      | some children =>
        if tag ∈ visiting then .error ("cyclic outbound group reference: " ++ tag)
        else children.foldlM (visit manager depth (tag :: visiting)) targets
      | none =>
        if targets.any (·.tag = outbound.tag) then .ok targets else .ok (targets ++ [⟨outbound.tag, ""⟩])

def collectConcreteURLTestTargets (manager : Manager) (tags : List String) : Except String (List Target) :=
  tags.foldlM (visit manager (manager.length + 1) []) []

def resolveSelected (manager : Manager) : ℕ → List String → String → Except String Outbound
  | 0, _, tag => .error ("cyclic outbound group selection: " ++ tag)
  | depth + 1, visited, tag =>
    match manager.outbound tag with
    | none => .error ("outbound not found: " ++ tag)
    | some outbound =>
      if outbound.all = none then .ok outbound
      else if tag ∈ visited then .error ("cyclic outbound group selection: " ++ tag)
      else if outbound.now = "" then .error ("outbound group has no selected member: " ++ outbound.tag)
      else resolveSelected manager depth (tag :: visited) outbound.now

def resolveSelectedURLTestOutbound (manager : Manager) (tag : String) : Except String Outbound :=
  resolveSelected manager (manager.length + 1) [] tag

structure Request where
  groupTag : String
  targetOutboundTag : String
  priorityOutboundTag : String
  excludeOutboundTag : String
  force : Bool
  concurrency : ℤ

def excludedTags (manager : Manager) (excludeTag : String) : Except String (List String) :=
  if excludeTag = "" then .ok []
  else
    match manager.outbound excludeTag with
    | none => .ok []
    | some outbound =>
      match outbound.all with
      | some members => do
        let targets ← collectConcreteURLTestTargets manager members
        .ok (targets.map (·.tag))
      | none => .ok [outbound.tag]

def prioritize (manager : Manager) (targets : List Target) (priorityTag : String) : List Target :=
  if priorityTag = "" then targets
  else
    match resolveSelectedURLTestOutbound manager priorityTag with
    | .error _ => targets
    | .ok outbound =>
      match targets.find? (·.tag = outbound.tag) with
      | none => targets
      | some target => target :: targets.erase target

def aliased (target : Target) (targetTag : String) : Target :=
  if targetTag ≠ target.tag then { target with resultTag := targetTag } else target

def resolveTarget (manager : Manager) (targets : List Target) (groupTag targetTag : String) :
    Except String (List Target) := do
  let outbound ← resolveSelectedURLTestOutbound manager targetTag
  match targets.find? (·.tag = outbound.tag) with
  | none => .error ("target outbound is not a member of group " ++ groupTag ++ ": " ++ targetTag)
  | some target => .ok [aliased target targetTag]

def resolveMembers (manager : Manager) (targets : List Target) (request : Request) : Except String (List Target) :=
  if request.targetOutboundTag ≠ "" then
    resolveTarget manager targets request.groupTag request.targetOutboundTag
  else
    let targets := prioritize manager targets request.priorityOutboundTag
    if targets = [] then .error ("outbound group has no testable members: " ++ request.groupTag) else .ok targets

def resolveURLTestTargets (manager : Manager) (request : Request) : Except String (List Target) :=
  match manager.outbound request.groupTag with
  | none => .error ("outbound group not found: " ++ request.groupTag)
  | some root =>
    match root.all with
    | none => .error ("outbound is not a group: " ++ request.groupTag)
    | some members => do
      let targets ← collectConcreteURLTestTargets manager members
      let excluded ← excludedTags manager request.excludeOutboundTag
      resolveMembers manager (targets.filter (·.tag ∉ excluded)) request

structure Distinct (targets : List Target) : Prop where
  tags : (targets.map (·.tag)).Nodup
  resultTags : (targets.map (·.managedResultTag)).Nodup

structure Plain (targets : List Target) : Prop where
  tags : (targets.map (·.tag)).Nodup
  noAlias : ∀ target ∈ targets, target.resultTag = ""

theorem Plain.nil : Plain [] := ⟨nodup_nil, nofun⟩

variable {targets targets' : List Target}

theorem Plain.sublist (h : Plain targets) (hsub : targets'.Sublist targets) : Plain targets' :=
  ⟨h.tags.sublist (hsub.map _), fun target htarget => h.noAlias target (hsub.subset htarget)⟩

theorem Plain.perm (h : Plain targets) (hperm : targets'.Perm targets) : Plain targets' :=
  ⟨(hperm.map _).nodup_iff.mpr h.tags, fun target htarget => h.noAlias target (hperm.subset htarget)⟩

variable {targets : List Target} {manager : Manager}

theorem Plain.concat (h : Plain targets) {tag : String}
    (hnew : targets.any (·.tag = tag) = false) : Plain (targets ++ [⟨tag, ""⟩]) := by
  constructor
  · rw [map_append, map_singleton, ← concat_eq_append]
    apply h.tags.concat
    intro hmem
    obtain ⟨target, htarget, htag⟩ := mem_map.mp hmem
    have := any_eq_false.mp hnew target htarget
    simp [htag] at this
  · intro target htarget
    rcases mem_append.mp htarget with htarget | htarget
    · exact h.noAlias target htarget
    · rw [mem_singleton.mp htarget]

theorem Plain.distinct (h : Plain targets) : Distinct targets := by
  refine ⟨h.tags, ?_⟩
  have hsame : targets.map (·.managedResultTag) = targets.map (·.tag) := by
    apply map_congr_left
    intro target htarget
    simp [Target.managedResultTag, h.noAlias target htarget]
  rw [hsame]
  exact h.tags

theorem foldlM_plain {f : List Target → String → Except String (List Target)}
    (hf : ∀ targets tag targets', Plain targets → f targets tag = .ok targets' → Plain targets')
    {tags : List String} (h : Plain targets) (hfold : tags.foldlM f targets = .ok targets') :
    Plain targets' := by
  induction tags generalizing targets with
  | nil =>
    obtain rfl : targets = targets' := Except.ok.inj hfold
    exact h
  | cons tag tags ih =>
    rw [foldlM_cons] at hfold
    cases hone : f targets tag with
    | error e =>
      rw [hone] at hfold
      cases hfold
    | ok next =>
      rw [hone] at hfold
      exact ih (hf _ _ _ h hone) hfold

theorem visit_plain (manager : Manager) (depth : ℕ) :
    ∀ (visiting : List String) (targets : List Target) (tag : String) (targets' : List Target),
      Plain targets → visit manager depth visiting targets tag = .ok targets' → Plain targets' := by
  induction depth with
  | zero =>
    intro visiting targets tag targets' _ hvisit
    cases hvisit
  | succ depth ih =>
    intro visiting targets tag targets' h hvisit
    rw [visit] at hvisit
    split at hvisit
    · cases hvisit
    split at hvisit
    · split_ifs at hvisit
      exact foldlM_plain (ih _) h hvisit
    · split_ifs at hvisit with hseen
      · rw [← Except.ok.inj hvisit]
        exact h
      · rw [← Except.ok.inj hvisit]
        exact h.concat (by simpa using hseen)

theorem prioritize_perm (manager : Manager) (targets : List Target) (priorityTag : String) :
    (prioritize manager targets priorityTag).Perm targets := by
  unfold prioritize
  split
  · exact .refl _
  split
  · exact .refl _
  split
  · exact .refl _
  · rename_i target hfind
    exact (perm_cons_erase (mem_of_find?_eq_some hfind)).symm

variable {targets result : List Target}

theorem resolveTarget_distinct {groupTag targetTag : String}
    (h : resolveTarget manager targets groupTag targetTag = .ok result) : Distinct result := by
  unfold resolveTarget at h
  cases hselected : resolveSelectedURLTestOutbound manager targetTag with
  | error e =>
    rw [hselected] at h
    cases h
  | ok outbound =>
    rw [hselected] at h
    change (match targets.find? (·.tag = outbound.tag) with
      | none => .error ("target outbound is not a member of group " ++ groupTag ++ ": " ++ targetTag)
      | some target => .ok [aliased target targetTag]) = Except.ok result at h
    split at h
    · cases h
    · rw [← Except.ok.inj h]
      exact ⟨nodup_singleton _, nodup_singleton _⟩

theorem resolveMembers_distinct {request : Request}
    (hplain : Plain targets) (h : resolveMembers manager targets request = .ok result) : Distinct result := by
  simp only [resolveMembers] at h
  split at h
  · exact resolveTarget_distinct h
  · split at h
    · cases h
    · rw [← Except.ok.inj h]
      exact (hplain.perm (prioritize_perm ..)).distinct

theorem resolve_distinct {request : Request}
    (h : resolveURLTestTargets manager request = .ok targets) : Distinct targets := by
  unfold resolveURLTestTargets at h
  split at h
  · cases h
  split at h
  · cases h
  · rename_i members _
    cases hcollect : collectConcreteURLTestTargets manager members with
    | error e =>
      rw [hcollect] at h
      cases h
    | ok collected =>
      cases hexcluded : excludedTags manager request.excludeOutboundTag with
      | error e =>
        rw [hcollect, hexcluded] at h
        cases h
      | ok excluded =>
        rw [hcollect, hexcluded] at h
        exact resolveMembers_distinct ((foldlM_plain (visit_plain manager _ _) .nil hcollect).sublist filter_sublist) h

end Hydracore.Daemon.URLTest
