import Hydracore.Parasite.Datagram.Collecting
import Hydracore.Parasite.Router.Model

namespace Hydracore.Parasite.Router

open Systems Datagram List Option Shared Call

variable {Addr : Type} {S : AddrSerializer Addr} {valid : Addr → Bool}

def Call.doomed : Call Addr → List ℕ
  | .closing doomed | .removing _ doomed | .clearing _ doomed => doomed
  | _ => []

def State.live (s : State Addr) (ref : ℕ) : Bool :=
  (s.shared.heap[ref]?).any (fun a => !a.receiver.closed) && s.calls.all fun c => ref ∉ c.doomed

def State.spared (s : State Addr) (id : UInt64) : Bool :=
  s.shared.closed || (s.shared.associations.lookup id).all fun ref => !s.live ref

def spares (s : State Addr) : Action Addr → Bool
  | .proceed i =>
    match s.calls[i]? with
    | some (.opening id _ _) => s.spared id
    | some (.removing ref _) => (s.shared.heap[ref]?).all fun a => s.spared a.id
    | _ => true
  | _ => true

def Ages (heap heap' : List (Association Addr)) : Prop :=
  ∀ (ref : ℕ) (a : Association Addr), heap[ref]? = some a →
    ∃ a', heap'[ref]? = some a' ∧ a'.id = a.id ∧ (a'.receiver.closed = false → a.receiver.closed = false)

section

variable (heap : List (Association Addr))
include heap

theorem Ages.refl : Ages heap heap := fun _ a h => ⟨a, h, rfl, id⟩

theorem Ages.append (a : Association Addr) : Ages heap (heap ++ [a]) :=
  fun _ b h => ⟨b, (getElem?_append_left (getElem?_lt h)).trans h, rfl, id⟩

theorem Ages.modify (ref : ℕ) {f : Association Addr → Association Addr}
    (hid : ∀ a, (f a).id = a.id) (hopen : ∀ a, (f a).receiver.closed = false → a.receiver.closed = false) :
    Ages heap (heap.modify ref f) := by
  intro ref' a h
  rw [getElem?_modify, h]
  by_cases href : ref = ref'
  · exact ⟨f a, by simp [href], hid a, hopen a⟩
  · exact ⟨a, by simp [href], rfl, id⟩

end

theorem deliverFragment_receiver_closed (now : ℤ) (frame : Frame Addr) (a : Association Addr) :
    (a.deliverFragment now frame).receiver.closed = a.receiver.closed := by
  cases h : a.receiver.closed with
  | true => simp [Association.deliverFragment, deliverFragment_closed h, h]
  | false => exact (deliverFragment_open h now frame).2.1

def Doomed (s : State Addr) (ref : ℕ) : Prop := ∃ c ∈ s.calls, ref ∈ c.doomed

variable {ref : ℕ}

theorem live_iff {s : State Addr} :
    s.live ref = true ↔ (∃ a, s.shared.heap[ref]? = some a ∧ a.receiver.closed = false) ∧ ¬ Doomed s ref := by
  simp [State.live, Doomed, Option.any_eq_true]

structure Onward (s t : State Addr) : Prop where
  ages : Ages s.shared.heap t.shared.heap
  doomed : ∀ ref, Doomed s ref → Doomed t ref ∨ ∀ a, t.shared.heap[ref]? = some a → a.receiver.closed = true
  closed : s.shared.closed = true → t.shared.closed = true
  origin : ∀ id ref, t.shared.associations.lookup id = some ref → s.shared.associations.lookup id = some ref ∨
    ∃ a, t.shared.heap[ref]? = some a ∧ a.id = id
  shutting : .shutting ∈ t.calls → .shutting ∈ s.calls ∨ t.shared.closed = true

inductive Stepped (s : State Addr) (a : Action Addr) (t : State Addr) : Prop
  | quiet (map : t.shared.associations = s.shared.associations) (size : t.shared.heap.length = s.shared.heap.length)
      (spares : spares s a = true)
  | registered (assoc : Association Addr) (map : t.shared.associations =
        s.shared.associations.insert assoc.id s.shared.heap.length) (heap : t.shared.heap = s.shared.heap ++ [assoc])
      (closed : t.shared.closed = s.shared.closed) (calls : ∀ ref, Doomed t ref → Doomed s ref)
      (spares : spares s a = s.spared assoc.id)
  | removed (id : UInt64) (map : t.shared.associations = s.shared.associations.erase id)
      (heap : t.shared.heap = s.shared.heap) (closed : t.shared.closed = s.shared.closed)
      (calls : ∀ ref, Doomed t ref → Doomed s ref) (spares : spares s a = s.spared id)
  | swept (heap : t.shared.heap = s.shared.heap) (kept : ∀ id ref, s.shared.associations.lookup id = some ref →
        t.shared.associations.lookup id = some ref ∨ Doomed t ref) (spares : spares s a = true)
  | ended (closed : t.shared.closed = true) (spares : spares s a = true)

variable {s t : State Addr} {shared : Shared Addr} {c c' : Call Addr} {i : ℕ}

theorem doomed_append (h : Doomed s ref) (c : Call Addr) : Doomed ⟨shared, s.calls ++ [c]⟩ ref := by
  obtain ⟨c', hc', href⟩ := h
  exact ⟨c', mem_append_left _ hc', href⟩

theorem onward_call (hages : Ages s.shared.heap shared.heap) (hclosed : s.shared.closed = true → shared.closed = true)
    (horigin : ∀ id ref, shared.associations.lookup id = some ref → s.shared.associations.lookup id = some ref)
    (hshut : c = .shutting → shared.closed = true) : Onward s ⟨shared, s.calls ++ [c]⟩ where
  ages := hages
  doomed ref h := .inl (doomed_append h c)
  closed := hclosed
  origin id ref h := .inl (horigin id ref h)
  shutting h := by
    rcases mem_append.mp h with h | h
    · exact .inl h
    · exact .inr (hshut (mem_singleton.mp h).symm)

structure Dooms (before after : Shared Addr × List ℕ) : Prop where
  heap : after.1.heap = before.1.heap
  closed : after.1.closed = before.1.closed
  subset : before.2 ⊆ after.2
  origin : ∀ id ref, after.1.associations.lookup id = some ref → before.1.associations.lookup id = some ref
  kept : ∀ id ref, before.1.associations.lookup id = some ref →
    after.1.associations.lookup id = some ref ∨ ref ∈ after.2

theorem dooms_dooms (conn : ℕ) (x : Shared Addr × List ℕ) (id : UInt64) : Dooms x (dooms conn x id) := by
  obtain ⟨s, doomed⟩ := x
  have hsame : Dooms (s, doomed) (s, doomed) := ⟨rfl, rfl, Subset.refl _, fun _ _ h => h, fun _ _ h => .inl h⟩
  simp only [dooms]
  split
  · rename_i ref hlookup
    split_ifs
    · refine ⟨rfl, rfl, subset_append_left _ _, fun _ _ h => (Dict.lookup_erase_some h).2, fun id' ref' h => ?_⟩
      by_cases hid : id' = id
      · subst hid
        cases hlookup.symm.trans h
        exact .inr (mem_append_right _ (mem_singleton.mpr rfl))
      · exact .inl ((AList.lookup_erase_ne hid).trans h)
    · exact hsame
  · exact hsame

theorem foldl_dooms (conn : ℕ) (order : List UInt64) (x : Shared Addr × List ℕ) :
    Dooms x (order.foldl (dooms conn) x) := by
  induction order generalizing x with
  | nil => exact ⟨rfl, rfl, Subset.refl _, fun _ _ h => h, fun _ _ h => .inl h⟩
  | cons id order ih =>
    have hone := dooms_dooms conn x id
    have hrest := ih (dooms conn x id)
    refine ⟨hrest.heap.trans hone.heap, hrest.closed.trans hone.closed, Subset.trans hone.subset hrest.subset,
      fun id ref h => hone.origin id ref (hrest.origin id ref h), fun id ref h => ?_⟩
    rcases hone.kept id ref h with h | h
    · exact hrest.kept id ref h
    · exact .inr (hrest.subset h)

theorem enterClose_cases {s : Shared Addr} {doomed : List ℕ} (h : s.enterClose ref doomed = some (shared, c)) :
    (shared = s ∧ c = .closing doomed ∧ ∀ a, s.heap[ref]? = some a → a.receiver.closed = true) ∨
    (shared = s.modify ref .closeChannel ∧ c = .removing ref doomed) := by
  obtain ⟨a, ha, h⟩ := bind_eq_some_iff.mp h
  split_ifs at h with hclosed htorn
  · cases h
    exact .inl ⟨rfl, rfl, fun b hb => some.inj (ha.symm.trans hb) ▸ hclosed⟩
  · cases h
    exact .inr ⟨rfl, rfl⟩

theorem closeChannel_closed {s : Shared Addr} {a : Association Addr}
    (h : (s.modify ref .closeChannel).heap[ref]? = some a) : a.receiver.closed = true := by
  simp only [Shared.modify, getElem?_modify_eq] at h
  obtain ⟨b, -, rfl⟩ := map_eq_some_iff.mp h
  rfl

theorem ages_closeChannel (s : Shared Addr) (ref : ℕ) : Ages s.heap (s.modify ref .closeChannel).heap :=
  Ages.modify _ _ (fun _ => rfl) (fun _ h => by cases h)

theorem length_modify (s : Shared Addr) (ref : ℕ) (f : Association Addr → Association Addr) :
    (s.modify ref f).heap.length = s.heap.length := List.length_modify ..

section

variable (hc : s.calls[i]? = some c)
include hc

theorem doomed_set (h : Doomed s ref) :
    Doomed ⟨shared, s.calls.set i c'⟩ ref ∨ ref ∈ c.doomed := by
  obtain ⟨d, hd, href⟩ := h
  rcases mem_set_or hd i c' with hd | hd
  · exact .inl ⟨d, hd, href⟩
  · exact .inr (some.inj (hc.symm.trans hd) ▸ href)

theorem doomed_of_set (h : Doomed ⟨shared, s.calls.set i c'⟩ ref)
    (hsub : c'.doomed ⊆ c.doomed) : Doomed s ref := by
  obtain ⟨d, hd, href⟩ := h
  rcases mem_or_eq_of_mem_set hd with hd | rfl
  · exact ⟨d, hd, href⟩
  · exact ⟨c, mem_of_getElem? hc, hsub href⟩

theorem onward_set (hages : Ages s.shared.heap shared.heap)
    (hclosed : shared.closed = s.shared.closed)
    (horigin : ∀ id ref, shared.associations.lookup id = some ref → s.shared.associations.lookup id = some ref ∨
      ∃ a, shared.heap[ref]? = some a ∧ a.id = id)
    (hdoomed : ∀ ref ∈ c.doomed, ref ∈ c'.doomed ∨ ∀ a, shared.heap[ref]? = some a → a.receiver.closed = true)
    (hshut : c' ≠ .shutting) : Onward s ⟨shared, s.calls.set i c'⟩ where
  ages := hages
  doomed ref h := by
    rcases doomed_set hc h with h | h
    · exact .inl h
    · rcases hdoomed ref h with h | h
      · exact .inl ⟨c', mem_set (getElem?_lt hc) c', h⟩
      · exact .inr h
  closed h := hclosed.trans h
  origin := horigin
  shutting h := by
    rcases mem_or_eq_of_mem_set h with h | h
    · exact .inl h
    · exact absurd h.symm hshut

theorem registered_cases {assoc : Association Addr} (hdoomed : c.doomed = [])
    (hdoomed' : c'.doomed = []) (hshut : c' ≠ .shutting) (hspares : spares s (.proceed i) = s.spared assoc.id) :
    Onward s ⟨s.shared.register assoc, s.calls.set i c'⟩ ∧
      Stepped s (.proceed i) ⟨s.shared.register assoc, s.calls.set i c'⟩ := by
  constructor
  · refine onward_set hc (.append _ _) rfl (fun id ref h => ?_) (by simp [hdoomed]) hshut
    obtain ⟨rfl, rfl⟩ | ⟨-, h⟩ := Dict.lookup_insert_some h
    · exact .inr ⟨assoc, getElem?_concat_length, rfl⟩
    · exact .inl h
  · exact .registered assoc rfl rfl rfl (fun ref h => doomed_of_set hc h (by simp [hdoomed'])) hspares

theorem quiet_cases (hages : Ages s.shared.heap shared.heap)
    (hlen : shared.heap.length = s.shared.heap.length) (hmap : shared.associations = s.shared.associations)
    (hclosed : shared.closed = s.shared.closed)
    (hdoomed : ∀ ref ∈ c.doomed, ref ∈ c'.doomed ∨ ∀ a, shared.heap[ref]? = some a → a.receiver.closed = true)
    (hshut : c' ≠ .shutting) {a : Action Addr} (hspares : spares s a = true) :
    Onward s ⟨shared, s.calls.set i c'⟩ ∧ Stepped s a ⟨shared, s.calls.set i c'⟩ :=
  ⟨onward_set hc hages hclosed (fun _ _ h => .inl (hmap ▸ h)) hdoomed hshut, .quiet hmap hlen hspares⟩

theorem proceed_cases (h : proceed valid s.shared c = some (shared, c')) :
    Onward s ⟨shared, s.calls.set i c'⟩ ∧ Stepped s (.proceed i) ⟨shared, s.calls.set i c'⟩ := by
  cases c with
  | opening id conn dest =>
    cases h
    have hspares : spares s (.proceed i) = s.spared id := by simp only [spares, hc]
    by_cases hclosed : s.shared.closed = true
    · simp only [newAssociation, if_pos hclosed]
      refine ⟨onward_set hc (.append _ _) rfl (fun _ _ h => .inl h) (by simp [doomed]) nofun,
        .ended hclosed (hspares.trans ?_)⟩
      simp [State.spared, hclosed]
    · simp only [newAssociation, if_neg hclosed]
      exact registered_cases hc rfl rfl (by simp) hspares
  | accepting frame conn =>
    cases h
    refine quiet_cases hc (.refl _) rfl rfl rfl (by simp [doomed]) ?_ (by simp only [spares, hc])
    split_ifs <;> simp
  | locking frame conn =>
    have hspares : spares s (.proceed i) = true := by simp only [spares, hc]
    simp only [proceed, acceptAssociation, some.injEq] at h
    split at h
    · cases h
      exact quiet_cases hc (.refl _) rfl rfl rfl (by simp [doomed]) (by simp) hspares
    · split at h
      · cases h
        exact quiet_cases hc (.refl _) rfl rfl rfl (by simp [doomed]) (by simp) hspares
      · rename_i hnone
        cases h
        refine registered_cases hc rfl rfl (by simp) (hspares.trans ?_)
        simp [State.spared, newDatagramAssociation, hnone]
  | delivering | shutting | returned => cases h
  | closing doomed =>
    have hspares : spares s (.proceed i) = true := by simp only [spares, hc]
    cases doomed with
    | nil =>
      cases h
      exact quiet_cases hc (.refl _) rfl rfl rfl (by simp [doomed]) (by simp) hspares
    | cons ref doomed =>
      obtain ⟨rfl, rfl, hclosed⟩ | ⟨rfl, rfl⟩ := enterClose_cases h
      · refine quiet_cases hc (.refl _) rfl rfl rfl (fun r hr => ?_) (by simp) hspares
        rcases mem_cons.mp hr with rfl | hr
        · exact .inr hclosed
        · exact .inl hr
      · refine quiet_cases hc (ages_closeChannel _ _) (length_modify ..) rfl rfl (fun r hr => ?_) (by simp) hspares
        rcases mem_cons.mp hr with rfl | hr
        · exact .inr fun a ha => closeChannel_closed ha
        · exact .inl hr
  | removing ref doomed =>
    obtain ⟨a, ha, heq⟩ := map_eq_some_iff.mp h
    cases heq
    constructor
    · exact onward_set hc (.refl _) rfl (fun _ _ h => .inl (Dict.lookup_erase_some h).2) (fun r hr => .inl hr) (by simp)
    · refine .removed a.id rfl rfl rfl (fun r hr => doomed_of_set hc hr fun _ h => h) ?_
      simp only [spares, hc, ha, all_some]
  | clearing ref doomed =>
    cases h
    have hspares : spares s (.proceed i) = true := by simp only [spares, hc]
    have hages : Ages s.shared.heap (s.shared.modify ref .clearPending).heap :=
      Ages.modify _ _ (by intro; rfl) (by intro a h; exact h)
    refine quiet_cases hc hages (length_modify ..) rfl rfl ?_ (by simp) hspares
    exact fun r hr => .inl hr

end

theorem step_cases {a : Action Addr} (hshut : .shutting ∈ s.calls → s.shared.closed = true)
    (h : step S valid s a = some t) : Onward s t ∧ Stepped s a t := by
  cases a with simp only [step] at h
  | setAcceptHandler =>
    cases h
    exact ⟨⟨.refl _, fun _ h => .inl h, id, fun _ _ h => .inl h, .inl⟩, .quiet rfl rfl rfl⟩
  | newAssociation conn dest =>
    cases h
    exact ⟨onward_call (.refl _) id (fun _ _ h => h) nofun, .quiet rfl rfl rfl⟩
  | routeReceivedDatagram raw conn =>
    split at h
    · cases h
      exact ⟨⟨.refl _, fun _ h => .inl h, id, fun _ _ h => .inl h, .inl⟩, .quiet rfl rfl rfl⟩
    · split at h
      all_goals
        cases h
        exact ⟨onward_call (.refl _) id (fun _ _ h => h) nofun, .quiet rfl rfl rfl⟩
  | closeAssociation ref =>
    obtain ⟨⟨shared, c⟩, hclose, rfl⟩ := map_eq_some_iff.mp h
    obtain ⟨rfl, rfl, -⟩ | ⟨rfl, rfl⟩ := enterClose_cases hclose
    · exact ⟨onward_call (.refl _) id (fun _ _ h => h) nofun, .quiet rfl rfl rfl⟩
    · exact ⟨onward_call (ages_closeChannel _ _) id (fun _ _ h => h) nofun, .quiet rfl (length_modify ..) rfl⟩
  | closeConn conn order =>
    split_ifs at h
    cases h
    have hd : Dooms (s.shared, []) (s.shared.closeConn conn order) := foldl_dooms conn order _
    constructor
    · refine onward_call ?_ hd.closed.trans hd.origin nofun
      rw [hd.heap]
      exact .refl _
    · refine .swept hd.heap (fun id ref h => ?_) rfl
      rcases hd.kept id ref h with h | h
      · exact .inl h
      · exact .inr ⟨_, mem_append_right _ (mem_singleton.mpr rfl), h⟩
  | close =>
    cases h
    exact ⟨onward_call (.refl _) (fun _ => rfl) (fun _ _ h => h) (fun _ => rfl), .ended rfl rfl⟩
  | proceed i =>
    obtain ⟨c, hc, ⟨shared, c'⟩, hp', rfl⟩ := bind_map_eq_some h
    exact proceed_cases hc hp'
  | deliver i now =>
    split at h
    · rename_i frame ref hc
      cases h
      have hages : Ages s.shared.heap (s.shared.modify ref (.deliverFragment now frame)).heap :=
        Ages.modify _ _ (by intro; rfl) fun a h => (deliverFragment_receiver_closed now frame a).symm.trans h
      exact quiet_cases hc hages (length_modify ..) rfl rfl (by simp [doomed]) (by simp) rfl
    · cases h
  | shut i order =>
    split at h
    · rename_i hc
      split_ifs at h
      cases h
      have hclosed := hshut (mem_of_getElem? hc)
      refine ⟨onward_set hc (.refl _) rfl (fun id ref h => ?_) (by simp [doomed]) nofun,
        .ended hclosed rfl⟩
      simp at h
    · cases h

end Hydracore.Parasite.Router
