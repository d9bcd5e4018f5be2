import Mathlib.Data.List.Perm.Subperm

namespace Hydracore.Systems

open List Relation

variable {α : Type}

namespace Search

variable {nodes : List α} {a : α}

section Ordered

variable {next : α → List α}

def Ordered (next : α → List α) : List α → Prop
  | [] => True
  | a :: rest => a ∉ rest ∧ (∀ b ∈ next a, b ∈ rest) ∧ Ordered next rest

def Leads (next : α → List α) (a b : α) : Prop := b ∈ next a

theorem Ordered.closed (h : Ordered next nodes) {a b : α} (ha : a ∈ nodes)
    (hab : TransGen (Leads next) a b) : b ∈ nodes := by
  induction nodes generalizing a with
  | nil => cases ha
  | cons v rest ih =>
    obtain ⟨-, hnext, hrest⟩ := h
    have hin : ∀ {c : α}, c ∈ rest → TransGen (Leads next) c b → b ∈ v :: rest := fun hc hcb =>
      mem_cons_of_mem v (ih hrest hc hcb)
    rcases mem_cons.mp ha with rfl | ha
    · rcases TransGen.head'_iff.mp hab with ⟨c, hac, hcb⟩
      rcases reflTransGen_iff_eq_or_transGen.mp hcb with rfl | hcb
      · exact mem_cons_of_mem a (hnext b hac)
      · exact hin (hnext c hac) hcb
    · exact hin ha hab

theorem Ordered.acyclic (h : Ordered next nodes) (ha : a ∈ nodes) : ¬ TransGen (Leads next) a a := by
  induction nodes with
  | nil => cases ha
  | cons v rest ih =>
    obtain ⟨hv, hnext, hrest⟩ := h
    intro haa
    rcases mem_cons.mp ha with rfl | ha
    · -- the first step leaves for the rest, which leads nowhere else
      obtain ⟨c, hac, hca⟩ := TransGen.head'_iff.mp haa
      rcases reflTransGen_iff_eq_or_transGen.mp hca with rfl | hca
      · exact hv (hnext a hac)
      · exact hv (hrest.closed (hnext c hac) hca)
    · exact ih hrest ha haa

end Ordered

variable [DecidableEq α]

def visit (next : α → List α) : ℕ → List α → List α → α → Option (List α)
  | fuel, visiting, visited, a =>
    if a ∈ visiting then none
    else if a ∈ visited then some visited
    else
      match fuel with
      | 0 => none
      | fuel + 1 => do
        let visited ← (next a).foldlM (visit next fuel (a :: visiting)) visited
        return a :: visited

def visitAll (next : α → List α) (fuel : ℕ) (visiting visited nodes : List α) : Option (List α) :=
  nodes.foldlM (visit next fuel visiting) visited

variable {next : α → List α} {fuel : ℕ} {visiting visited visited' : List α}

theorem visitAll_cons (a : α) (nodes : List α) : visitAll next fuel visiting visited (a :: nodes) =
      (visit next fuel visiting visited a).bind fun visited => visitAll next fuel visiting visited nodes := rfl

theorem visit_visiting (h : a ∈ visiting) : visit next fuel visiting visited a = none := by
  unfold visit
  exact if_pos h

theorem visit_visited (h : a ∉ visiting) (hv : a ∈ visited) :
    visit next fuel visiting visited a = some visited := by
  unfold visit
  rw [if_neg h, if_pos hv]

theorem visit_new (h : a ∉ visiting) (hv : a ∉ visited) : visit next (fuel + 1) visiting visited a =
      (visitAll next fuel (a :: visiting) visited (next a)).map (a :: ·) := by
  rw [visit, if_neg h, if_neg hv, visitAll]
  cases (next a).foldlM (visit next fuel (a :: visiting)) visited <;> rfl

structure Marked (next : α → List α) (visiting visited : List α) : Prop where
  ordered : Ordered next visited
  apart : ∀ a ∈ visited, a ∉ visiting

theorem visitAll_marked_of (hvisit : ∀ visited visited' a, Marked next visiting visited →
      visit next fuel visiting visited a = some visited' →
      Marked next visiting visited' ∧ visited ⊆ visited' ∧ a ∈ visited') (hm : Marked next visiting visited)
    (h : visitAll next fuel visiting visited nodes = some visited') :
    Marked next visiting visited' ∧ visited ⊆ visited' ∧ ∀ a ∈ nodes, a ∈ visited' := by
  induction nodes generalizing visited with
  | nil =>
    cases h
    exact ⟨hm, fun _ => id, nofun⟩
  | cons a nodes ih =>
    obtain ⟨mid, hmid, hrest⟩ := Option.bind_eq_some_iff.mp h
    obtain ⟨hmarked, hsub, ha⟩ := hvisit _ _ _ hm hmid
    obtain ⟨hmarked', hsub', hall⟩ := ih hmarked hrest
    exact ⟨hmarked', fun b hb => hsub' (hsub hb), forall_mem_cons.mpr ⟨hsub' ha, hall⟩⟩

theorem visit_marked (a : α) (hm : Marked next visiting visited)
    (h : visit next fuel visiting visited a = some visited') :
    Marked next visiting visited' ∧ visited ⊆ visited' ∧ a ∈ visited' := by
  induction fuel generalizing visiting visited visited' a with
  | zero =>
    unfold visit at h
    split_ifs at h with hstack hdone
    cases h
    exact ⟨hm, fun _ => id, hdone⟩
  | succ fuel ih =>
    by_cases hstack : a ∈ visiting
    · rw [visit_visiting hstack] at h
      cases h
    by_cases hdone : a ∈ visited
    · rw [visit_visited hstack hdone] at h
      cases h
      exact ⟨hm, fun _ => id, hdone⟩
    rw [visit_new hstack hdone] at h
    obtain ⟨mid, hmid, rfl⟩ := Option.map_eq_some_iff.mp h
    have hpush : Marked next (a :: visiting) visited := by
      refine ⟨hm.ordered, fun b hb => ?_⟩
      rw [mem_cons, not_or]
      exact ⟨fun hba => hdone (hba ▸ hb), hm.apart b hb⟩
    obtain ⟨hmarked, hsub, hall⟩ := visitAll_marked_of (fun _ _ b hb hv => ih b hb hv) hpush hmid
    have hfresh : a ∉ mid := fun ha => hmarked.apart a ha mem_cons_self
    refine ⟨⟨⟨hfresh, hall, hmarked.ordered⟩, ?_⟩, fun b hb => mem_cons_of_mem a (hsub hb), mem_cons_self⟩
    intro b hb
    rcases mem_cons.mp hb with rfl | hb
    · exact hstack
    · exact fun hbv => hmarked.apart b hb (mem_cons_of_mem a hbv)

theorem exists_visitAll_of {starts : List α} (visited : List α)
    (hvisit : ∀ a ∈ starts, ∀ visited, ∃ visited', visit next fuel visiting visited a = some visited') :
    ∃ visited', visitAll next fuel visiting visited starts = some visited' := by
  induction starts generalizing visited with
  | nil => exact ⟨visited, rfl⟩
  | cons a starts ih =>
    obtain ⟨hfirst, hrest⟩ := forall_mem_cons.mp hvisit
    obtain ⟨mid, hmid⟩ := hfirst visited
    rw [visitAll_cons, hmid]
    exact ih mid hrest

section Complete

variable {nodes : List α} (hclosed : ∀ a ∈ nodes, ∀ b ∈ next a, b ∈ nodes)
  (hacyclic : ∀ a, ¬ Relation.TransGen (Leads next) a a)

structure Stacked (next : α → List α) (nodes : List α) (fuel : ℕ) (visiting : List α) (a : α) : Prop where
  mem : a ∈ nodes
  subset : visiting ⊆ nodes
  nodup : visiting.Nodup
  leads : ∀ b ∈ visiting, Relation.TransGen (Leads next) b a
  fuel : nodes.length ≤ fuel + visiting.length

include hclosed hacyclic

theorem exists_visit (h : Stacked next nodes fuel visiting a) (visited : List α) :
    ∃ visited', visit next fuel visiting visited a = some visited' := by
  induction fuel generalizing visiting visited a with
  | zero =>
    -- a full stack would hold the node itself
    have hstack : a ∉ visiting := fun ha => hacyclic a (h.leads a ha)
    have hlength : (a :: visiting).length ≤ nodes.length := by
      apply (subperm_of_subset (nodup_cons.mpr ⟨hstack, h.nodup⟩) ?_).length_le
      exact cons_subset.mpr ⟨h.mem, h.subset⟩
    have := h.fuel
    rw [length_cons] at hlength
    omega
  | succ fuel ih =>
    have hstack : a ∉ visiting := fun ha => hacyclic a (h.leads a ha)
    by_cases hdone : a ∈ visited
    · exact ⟨visited, visit_visited hstack hdone⟩
    have hnext : ∀ b ∈ next a, Stacked next nodes fuel (a :: visiting) b := by
      intro b hb
      refine ⟨hclosed a h.mem b hb, cons_subset.mpr ⟨h.mem, h.subset⟩, nodup_cons.mpr ⟨hstack, h.nodup⟩, ?_, ?_⟩
      · exact forall_mem_cons.mpr ⟨.single hb, fun c hc => (h.leads c hc).tail hb⟩
      · have := h.fuel
        rw [length_cons]
        omega
    obtain ⟨mid, hmid⟩ := exists_visitAll_of visited fun b hb => ih (hnext b hb)
    exact ⟨a :: mid, by rw [visit_new hstack hdone, hmid]; rfl⟩

end Complete

theorem isSome_visitAll_iff {nodes starts : List α} (hstarts : ∀ a, a ∈ starts ↔ a ∈ nodes)
    (hclosed : ∀ a ∈ nodes, ∀ b ∈ next a, b ∈ nodes) (hnodes : ∀ a, a ∉ nodes → next a = [])
    (hfuel : nodes.length ≤ fuel) :
    (visitAll next fuel [] [] starts).isSome = true ↔ ∀ a, ¬ TransGen (Leads next) a a := by
  constructor
  · intro h a haa
    obtain ⟨visited, hvisited⟩ := Option.isSome_iff_exists.mp h
    have hempty : Marked next [] [] := ⟨trivial, nofun⟩
    obtain ⟨hmarked, -, hall⟩ := visitAll_marked_of (fun _ _ a hempty hv => visit_marked a hempty hv) hempty hvisited
    obtain ⟨b, hab, -⟩ := TransGen.head'_iff.mp haa
    have ha : a ∈ nodes := by
      by_contra ha
      rw [Leads, hnodes a ha] at hab
      cases hab
    exact hmarked.ordered.acyclic (hall a ((hstarts a).mpr ha)) haa
  · intro hacyclic
    apply Option.isSome_iff_exists.mpr
    apply exists_visitAll_of
    intro a ha visited
    apply exists_visit hclosed hacyclic
    exact ⟨(hstarts a).mp ha, nil_subset _, nodup_nil, nofun, by omega⟩

end Search

end Hydracore.Systems
