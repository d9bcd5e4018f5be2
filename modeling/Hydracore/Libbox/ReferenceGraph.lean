import Hydracore.Libbox.References
import Hydracore.Systems.Outcomes
import Hydracore.Systems.Searches

namespace Hydracore.Libbox

open Formats Systems List

structure RemoteObject where
  type : String
  tag : String
  raw : List (String × Json)

open RemoteObject

structure Visits (o o' : RemoteObject) : Prop where
  type : o'.type = o.type
  tag : o'.tag = o.tag
  raw : Reordered (.object o.raw) (.object o'.raw)

structure Iteration (inbounds objects : List RemoteObject) where
  visitedInbounds : List RemoteObject
  visitedObjects : List RemoteObject
  visitedTags : List String
  inbounds_visits : List.Forall₂ Visits inbounds visitedInbounds
  objects_visits : ∃ order, order.Perm objects ∧ List.Forall₂ Visits order visitedObjects
  tags_perm : visitedTags.Perm (objects.map RemoteObject.tag)

/-- The tags on the stack are distinct, so `fuel` is never spent on a graph of that many tags. -/
def visit (graph : List (String × List String)) : ℕ → List String → List String → String → Option (List String)
  | fuel, visiting, visited, tag =>
    if tag ∈ visiting then none
    else if tag ∈ visited then some visited
    else
      match fuel with
      | 0 => none
      | fuel + 1 => do
        let visited ← ((graph.lookup tag).getD []).foldlM (visit graph fuel (tag :: visiting)) visited
        return tag :: visited

def checkReferences (tags : List String) (check : Check) (raw : List (String × Json)) :
    Except PolicyError (List String) := do
  let references ← remoteObjectReferences raw
  if references.all (· ∈ tags) then .ok references else .error ⟨check, .root⟩

def graphEntry (tags : List String) (object : RemoteObject) : Except PolicyError (String × List String) := do
  let references ← checkReferences tags .missingReference object.raw
  return (object.tag, references)

def validateRemoteReferenceGraph (inbounds outbounds endpoints : List RemoteObject)
    (iteration : Iteration inbounds (outbounds ++ endpoints)) : Except PolicyError Unit :=
  let tags := (outbounds ++ endpoints).map RemoteObject.tag
  if ¬ tags.Nodup then .error ⟨.duplicateTag, .root⟩
  else do
    let graph ← iteration.visitedObjects.mapM (graphEntry tags)
    let _ ← iteration.visitedInbounds.mapM fun inbound => checkReferences tags .missingInboundReference inbound.raw
    if (iteration.visitedTags.foldlM (visit graph graph.length []) []).isSome then .ok ()
    else .error ⟨.referenceCycle, .root⟩

def Links (objects : List RemoteObject) (a b : String) : Prop :=
  ∃ o ∈ objects, o.tag = a ∧ References (.object o.raw) b

def nextTags (graph : List (String × List String)) (tag : String) : List String := (graph.lookup tag).getD []

theorem visit_eq_search (graph : List (String × List String)) (fuel : ℕ) :
    visit graph fuel = Search.visit (nextTags graph) fuel := by
  induction fuel with
  | zero =>
    funext visiting visited tag
    rw [visit, Search.visit]
  | succ fuel ih =>
    funext visiting visited tag
    rw [visit, ih]
    rfl

section Checks

variable {tags : List String} {raw : List (String × Json)} (hwell : WellTyped (.object raw))

include hwell

theorem checkReferences_ok_iff (check : Check) : (∃ references, checkReferences tags check raw = .ok references) ↔
      ∀ tag, References (.object raw) tag → tag ∈ tags := by
  obtain ⟨references, hok, hmem⟩ := exists_remoteObjectReferences hwell
  have hcheck : checkReferences tags check raw =
      if references.all (· ∈ tags) then .ok references else .error ⟨check, .root⟩ := by
    rw [checkReferences, hok]
    rfl
  have hall : references.all (· ∈ tags) = true ↔ ∀ tag, References (.object raw) tag → tag ∈ tags := by
    simp [all_eq_true, hmem]
  rw [hcheck, ← hall]
  split_ifs with h <;> simp [h]

theorem mem_of_checkReferences {check : Check} {references : List String}
    (h : checkReferences tags check raw = .ok references) (tag : String) :
    tag ∈ references ↔ References (.object raw) tag := by
  obtain ⟨references', hok, hmem⟩ := exists_remoteObjectReferences hwell
  rw [checkReferences, hok] at h
  simp only [bind, Except.bind] at h
  split_ifs at h
  cases h
  exact hmem tag

end Checks

variable {o : RemoteObject}

section Graph

variable {tags : List String} {objects : List RemoteObject} {graph : List (String × List String)}

theorem graphEntry_ok {e : String × List String} (h : graphEntry tags o = .ok e) :
    e.1 = o.tag ∧ checkReferences tags .missingReference o.raw = .ok e.2 := by
  obtain ⟨references, hok, he⟩ := exists_ok_bind h
  cases he
  exact ⟨rfl, hok⟩

theorem tags_of_graph (hgraph : Forall₂ (fun o e => graphEntry tags o = .ok e) objects graph) :
    graph.map Prod.fst = objects.map tag := by
  induction hgraph with
  | nil => rfl
  | cons he _ ih => rw [map_cons, map_cons, ih, (graphEntry_ok he).1]

section

variable (hwell : ∀ o ∈ objects, WellTyped (.object o.raw))
  (hgraph : Forall₂ (fun o e => graphEntry tags o = .ok e) objects graph)
include hwell hgraph

theorem mem_nextTags (hnodup : (objects.map tag).Nodup) (a b : String) :
    b ∈ nextTags graph a ↔ Links objects a b := by
  induction hgraph with
  | nil => simp [nextTags, Links]
  | @cons o e objects graph he _ ih =>
    obtain ⟨hwello, hwell⟩ := forall_mem_cons.mp hwell
    obtain ⟨hnot, hnodup⟩ := nodup_cons.mp hnodup
    obtain ⟨htag, hok⟩ := graphEntry_ok he
    have hrefs := mem_of_checkReferences hwello hok b
    have ih := ih hwell hnodup
    have hlinks : Links (o :: objects) a b ↔ (o.tag = a ∧ References (.object o.raw) b) ∨ Links objects a b := by
      simp [Links]
    rw [hlinks, ← hrefs, ← ih]
    obtain ⟨key, references⟩ := e
    obtain rfl : key = o.tag := htag
    by_cases ha : o.tag = a
    · -- no later object has this tag
      have hlater : b ∉ nextTags graph a := by
        rw [ih]
        rintro ⟨o', ho', htag', -⟩
        exact hnot (mem_map.mpr ⟨o', ho', htag'.trans ha.symm⟩)
      subst ha
      rw [or_iff_left hlater]
      simp [nextTags]
    · have hne : (a == o.tag) = false := by simp [Ne.symm ha]
      simp [nextTags, lookup_cons, hne, ha]

theorem acyclic_iff (htags : tags.Perm (objects.map tag)) (hnodup : tags.Nodup) {order : List String}
    (horder : order.Perm tags) : (order.foldlM (visit graph graph.length []) []).isSome = true ↔
      ∀ tag, ¬ Relation.TransGen (Links objects) tag tag := by
  have hnext := mem_nextTags hwell hgraph (htags.nodup_iff.mp hnodup)
  have hleads : Search.Leads (nextTags graph) = Links objects := by
    funext a b
    exact propext (hnext a b)
  have hlinked : ∀ {a b}, b ∈ nextTags graph a → a ∈ tags ∧ b ∈ tags := by
    intro a b hb
    obtain ⟨o, ho, rfl, href⟩ := (hnext a b).mp hb
    obtain ⟨e, -, he⟩ := ok_of_mem hgraph ho
    refine ⟨htags.mem_iff.mpr (mem_map_of_mem ho), ?_⟩
    exact (checkReferences_ok_iff (hwell o ho) _).mp ⟨e.2, (graphEntry_ok he).2⟩ b href
  rw [visit_eq_search, ← hleads]
  apply Search.isSome_visitAll_iff (fun tag => horder.mem_iff)
  · exact fun a _ b hb => (hlinked hb).2
  · intro a ha
    apply eq_nil_iff_forall_not_mem.mpr
    exact fun b hb => ha (hlinked hb).1
  · have hlength : tags.length = graph.length := by
      rw [htags.length_eq, ← tags_of_graph hgraph, length_map]
    exact Nat.le_of_eq hlength

end

end Graph

theorem map_tag_of_visits {order visited : List RemoteObject} (h : Forall₂ Visits order visited) :
    order.map tag = visited.map tag := by
  induction h with
  | nil => rfl
  | cons hvisit _ ih => rw [map_cons, map_cons, ih, hvisit.tag]

section Iterations

variable {inbounds outbounds endpoints : List RemoteObject} (it : Iteration inbounds (outbounds ++ endpoints))

namespace Iteration

theorem exists_inbound {o' : RemoteObject} (h : o' ∈ it.visitedInbounds) : ∃ o ∈ inbounds, Visits o o' :=
  ok_of_mem it.inbounds_visits.flip h

theorem exists_visited_object (h : o ∈ outbounds ++ endpoints) : ∃ o' ∈ it.visitedObjects, Visits o o' := by
  obtain ⟨order, hperm, hvisits⟩ := it.objects_visits
  exact ok_of_mem hvisits (hperm.mem_iff.mpr h)

theorem exists_object {o' : RemoteObject} (h : o' ∈ it.visitedObjects) : ∃ o ∈ outbounds ++ endpoints, Visits o o' := by
  obtain ⟨order, hperm, hvisits⟩ := it.objects_visits
  obtain ⟨o, ho, hvisit⟩ := ok_of_mem hvisits.flip h
  exact ⟨o, hperm.mem_iff.mp ho, hvisit⟩

theorem objects_tags : ((outbounds ++ endpoints).map tag).Perm (it.visitedObjects.map tag) := by
  obtain ⟨order, hperm, hvisits⟩ := it.objects_visits
  rw [← map_tag_of_visits hvisits]
  exact (hperm.map _).symm

theorem links_iff (a b : String) : Links (outbounds ++ endpoints) a b ↔ Links it.visitedObjects a b := by
  constructor
  · rintro ⟨o, ho, htag, href⟩
    obtain ⟨o', ho', hvisit⟩ := it.exists_visited_object ho
    exact ⟨o', ho', hvisit.tag.trans htag, (hvisit.raw.references_iff b).mp href⟩
  · rintro ⟨o', ho', htag, href⟩
    obtain ⟨o, ho, hvisit⟩ := it.exists_object ho'
    exact ⟨o, ho, hvisit.tag.symm.trans htag, (hvisit.raw.references_iff b).mpr href⟩

section

variable (h : ∀ o ∈ inbounds ++ (outbounds ++ endpoints), WellTyped (.object o.raw))
include h

theorem wellTyped_objects : ∀ o ∈ it.visitedObjects, WellTyped (.object o.raw) := by
  intro o' ho'
  obtain ⟨o, ho, hvisit⟩ := it.exists_object ho'
  exact hvisit.raw.wellTyped (h o (mem_append_right _ ho))

theorem wellTyped_inbounds : ∀ o ∈ it.visitedInbounds, WellTyped (.object o.raw) := by
  intro o' ho'
  obtain ⟨o, ho, hvisit⟩ := it.exists_inbound ho'
  exact hvisit.raw.wellTyped (h o (mem_append_left _ ho))

end

end Iteration

theorem references_named_iff (tags : List String) :
    (∀ o ∈ inbounds ++ (outbounds ++ endpoints), ∀ tag, References (.object o.raw) tag → tag ∈ tags) ↔
      (∀ o ∈ it.visitedObjects, ∀ tag, References (.object o.raw) tag → tag ∈ tags) ∧
        ∀ o ∈ it.visitedInbounds, ∀ tag, References (.object o.raw) tag → tag ∈ tags := by
  constructor
  · intro h
    constructor
    · intro o' ho' tag href
      obtain ⟨o, ho, hvisit⟩ := it.exists_object ho'
      exact h o (mem_append_right _ ho) tag ((hvisit.raw.references_iff tag).mpr href)
    · intro o' ho' tag href
      obtain ⟨o, ho, hvisit⟩ := it.exists_inbound ho'
      exact h o (mem_append_left _ ho) tag ((hvisit.raw.references_iff tag).mpr href)
  · rintro ⟨hobjects, hinbounds⟩ o ho tag href
    rcases mem_append.mp ho with ho | ho
    · obtain ⟨o', ho', hvisit⟩ := ok_of_mem it.inbounds_visits ho
      exact hinbounds o' ho' tag ((hvisit.raw.references_iff tag).mp href)
    · obtain ⟨o', ho', hvisit⟩ := it.exists_visited_object ho
      exact hobjects o' ho' tag ((hvisit.raw.references_iff tag).mp href)

theorem reference_graph_exact (hwell : ∀ o ∈ inbounds ++ (outbounds ++ endpoints), WellTyped (.object o.raw)) :
    validateRemoteReferenceGraph inbounds outbounds endpoints it = .ok () ↔
      ((outbounds ++ endpoints).map tag).Nodup ∧
      (∀ o ∈ inbounds ++ (outbounds ++ endpoints), ∀ tag, References (.object o.raw) tag →
        tag ∈ (outbounds ++ endpoints).map RemoteObject.tag) ∧
      ∀ tag, ¬ Relation.TransGen (Links (outbounds ++ endpoints)) tag tag := by
  have hobjects := it.wellTyped_objects hwell
  have hinbounds := it.wellTyped_inbounds hwell
  have hlinks : Links (outbounds ++ endpoints) = Links it.visitedObjects := by
    funext a b
    exact propext (it.links_iff a b)
  rw [references_named_iff it, hlinks]
  unfold validateRemoteReferenceGraph
  by_cases hnodup : ((outbounds ++ endpoints).map tag).Nodup
  · rw [if_neg (not_not.mpr hnodup)]
    constructor
    · intro h
      obtain ⟨graph, hgraph, h⟩ := exists_ok_bind h
      obtain ⟨checked, hchecked, h⟩ := exists_ok_bind h
      split_ifs at h with hsearch
      refine ⟨hnodup, ⟨fun o ho => ?_, fun o ho => ?_⟩, ?_⟩
      · obtain ⟨e, -, he⟩ := ok_of_mem (mapM_ok hgraph) ho
        exact (checkReferences_ok_iff (hobjects o ho) _).mp ⟨e.2, (graphEntry_ok he).2⟩
      · obtain ⟨references, -, hok⟩ := ok_of_mem (mapM_ok hchecked) ho
        exact (checkReferences_ok_iff (hinbounds o ho) _).mp ⟨references, hok⟩
      · exact (acyclic_iff hobjects (mapM_ok hgraph) it.objects_tags hnodup it.tags_perm).mp hsearch
    · rintro ⟨-, ⟨hrefs, hinrefs⟩, hacyclic⟩
      obtain ⟨graph, hgraph⟩ : ∃ graph, it.visitedObjects.mapM
          (graphEntry ((outbounds ++ endpoints).map tag)) = .ok graph := by
        apply exists_mapM_ok
        intro o ho
        obtain ⟨references, hok⟩ := (checkReferences_ok_iff (hobjects o ho) .missingReference).mpr (hrefs o ho)
        exact ⟨(o.tag, references), by rw [graphEntry, hok]; rfl⟩
      obtain ⟨checked, hchecked⟩ : ∃ checked, it.visitedInbounds.mapM (fun inbound =>
          checkReferences ((outbounds ++ endpoints).map tag) .missingInboundReference inbound.raw) =
            .ok checked := by
        apply exists_mapM_ok
        intro o ho
        exact (checkReferences_ok_iff (hinbounds o ho) _).mpr (hinrefs o ho)
      have hsearch := (acyclic_iff hobjects (mapM_ok hgraph) it.objects_tags hnodup it.tags_perm).mpr hacyclic
      rw [hgraph]
      simp only [bind, Except.bind, hchecked]
      exact if_pos hsearch
  · rw [if_pos hnodup]
    constructor
    · intro h
      cases h
    · exact fun h => absurd h.1 hnodup

end Iterations

def detoured (tag detour : String) : RemoteObject := ⟨"socks", tag, [("tag", .string tag), ("detour", .string detour)]⟩

theorem wellTyped_detoured (tag detour : String) : WellTyped (.object (detoured tag detour).raw) := by
  intro h
  rw [detoured, finds_cons, finds_below rfl, finds_field rfl] at h
  rcases h with h | ⟨-, htag⟩ | ⟨hkey, -⟩
  · cases h
  · exact htag (.inr ⟨detour, rfl⟩)
  · revert hkey
    decide

def backwards (inbounds objects : List RemoteObject) : Iteration inbounds objects where
  visitedInbounds := inbounds
  visitedObjects := objects
  visitedTags := (objects.map RemoteObject.tag).reverse
  inbounds_visits := List.forall₂_same.mpr fun _ _ => ⟨rfl, rfl, .refl _⟩
  objects_visits := ⟨objects, .refl _, List.forall₂_same.mpr fun _ _ => ⟨rfl, rfl, .refl _⟩⟩
  tags_perm := List.reverse_perm _

theorem reference_graph_exact_detours :
    validateRemoteReferenceGraph [detoured "in" "b"] [detoured "a" "b"] [detoured "b" ""] (backwards _ _) = .ok () ∧
      ∀ tag, ¬ Relation.TransGen (Links ([detoured "a" "b"] ++ [detoured "b" ""])) tag tag := by
  have hok : validateRemoteReferenceGraph [detoured "in" "b"] [detoured "a" "b"] [detoured "b" ""]
      (backwards _ _) = .ok () := by rfl
  have hwell : ∀ o ∈ [detoured "in" "b"] ++ ([detoured "a" "b"] ++ [detoured "b" ""]), WellTyped (.object o.raw) := by
    intro o ho
    simp only [List.mem_append, List.mem_singleton] at ho
    rcases ho with rfl | rfl | rfl <;> exact wellTyped_detoured _ _
  exact ⟨hok, ((reference_graph_exact (backwards _ _) hwell).mp hok).2.2⟩

example : validateRemoteReferenceGraph [] [detoured "a" "b"] [detoured "b" "a"] (backwards _ _) =
    .error ⟨.referenceCycle, .root⟩ := by rfl

end Hydracore.Libbox
