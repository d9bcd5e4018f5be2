import Hydracore.Call.Bridge
import Hydracore.Systems.Runs

namespace Hydracore.Call.Swap

open Formats Systems List Option Instr RelayBridge

def Event.mixes : Event → Bool
  | .sent via cause _ after => after && decide (cause < via)
  | .removed _ _ entry cause after => after && decide (cause < entry)

section Orderly

variable (s : RelayBridge)

def spare (table : Table) (id : UInt32) : Bool :=
  ((s.lookup table id).bind (s.objs[·]?)).all fun c => c.closed || decide (c.born = s.epoch)

def registered : Bool :=
  s.objs.zipIdx.all fun e => !e.1.held || e.1.closed || decide (s.lookup e.1.kind.table e.1.id = some e.2)

def orderly : Act → Bool
  | .publish _ _ => s.tasks.all List.isEmpty && registered s
  | .write ref _ | .read ref _ | .close ref =>
    s.returned || s.objs[ref]?.all fun c => c.closed || decide (c.born = s.epoch)
  | .run i _ =>
    match s.tasks[i]? with
    | some (⟨_, .store table id _⟩ :: _) | some (⟨_, .delete table id⟩ :: _) => s.returned || spare s table id
    | _ => true
  | _ => true

end Orderly

section Current

variable (s : RelayBridge)

def Own (ref : ℕ) : Prop := ∃ c, s.objs[ref]? = some c ∧ c.born = s.epoch

def OwnEntry (table : Table) (id : UInt32) (ref : ℕ) : Prop :=
  ∃ c, s.objs[ref]? = some c ∧ c.born = s.epoch ∧ c.kind.table = table ∧ c.id = id

def Instr.Current : Instr → Prop
  | .sendVia via _ => via = s.epoch
  | .store table id ref => OwnEntry s table id ref
  | .storeEgress id ref => OwnEntry s .udpClients id ref
  | .hold ref | .awaitReady ref => Own s ref
  | .handle _ | .unlock => s.returned = true
  | _ => True

def Op.Current (op : Op) : Prop := op.cause = s.epoch ∧ op.instr.Current s

def Waiting (ref : ℕ) (c : Conn) : Prop :=
  s.returned = false ∧ s.lookup c.kind.table c.id = some ref ∧
    match s.sweep with
    | .idle => False
    | .due => True
    | .ranging .conns => c.kind.table = .conns → c.id ∈ s.unvisited
    | .ranging .udpClients => c.kind.table = .udpClients ∧ c.id ∈ s.unvisited

def Reachable (ref : ℕ) (c : Conn) : Prop := c.held = true ∨ s.lookup c.kind.table c.id = some ref

end Current

structure Sound (s : RelayBridge) : Prop where
  tasks : ∀ t ∈ s.tasks, ∀ op ∈ t, op.Current s
  born : ∀ c ∈ s.objs, c.born ≤ s.epoch
  entries : ∀ table id ref, s.lookup table id = some ref →
    ∃ c, s.objs[ref]? = some c ∧ c.kind.table = table ∧ c.id = id
  older : ∀ ref c, s.objs[ref]? = some c → c.closed = false → c.born ≠ s.epoch → Reachable s ref c → Waiting s ref c
  locked : s.returned = false → s.locked = true
  events : ∀ e ∈ s.events, e.mixes = false

section Lookup

variable (s : RelayBridge) (table : Table) (id : UInt32) (ref : ℕ)

theorem lookup_insert (table' : Table) (id' : UInt32) : (s.insert table id ref).lookup table' id' =
      if table' = table ∧ id' = id then some ref else s.lookup table' id' := by
  rcases eq_or_ne id' id with rfl | h
  · cases table <;> cases table' <;> simp [RelayBridge.insert, RelayBridge.lookup]
  · rw [if_neg fun heq => h heq.2]
    cases table <;> cases table' <;> simp [RelayBridge.insert, RelayBridge.lookup, AList.lookup_insert_ne h]

theorem erase_conns : (s.erase .conns id).conns = s.conns.erase id := by
  unfold erase
  split_ifs <;> rfl

theorem erase_udpClients : (s.erase .udpClients id).udpClients = s.udpClients.erase id := by
  unfold erase
  split_ifs <;> rfl

theorem lookup_erase_other {table table' : Table} (h : table' ≠ table) (id' : UInt32) :
    (s.erase table id).lookup table' id' = s.lookup table' id' := by
  unfold erase
  cases table <;> cases table' <;> first | exact absurd rfl h | (split_ifs <;> rfl)

theorem lookup_erase (table' : Table) (id' : UInt32) :
    (s.erase table id).lookup table' id' = if table' = table ∧ id' = id then none else s.lookup table' id' := by
  rcases eq_or_ne table' table with rfl | htable
  · rcases eq_or_ne id' id with rfl | h
    · cases table' <;> simp [RelayBridge.lookup, erase_conns, erase_udpClients]
    · cases table' <;> simp [RelayBridge.lookup, erase_conns, erase_udpClients, h, AList.lookup_erase_ne h]
  · rw [lookup_erase_other s id htable, if_neg fun heq => htable heq.1]

theorem mem_keys_of_lookup {table : Table} {id : UInt32} {ref : ℕ} (h : s.lookup table id = some ref) :
    id ∈ s.keys table := by
  cases table <;> exact AList.mem_keys.mp (AList.lookup_isSome.mp (by simp [RelayBridge.lookup] at h; simp [h]))

end Lookup

variable {s t : RelayBridge} {table : Table} {ref : ℕ} {op : Op} {rest : List Op} {f : Conn → Conn}

section Keeping

def Kept (objs objs' : List Conn) : Prop :=
  ∀ (ref : ℕ) (c : Conn), objs[ref]? = some c →
    ∃ c', objs'[ref]? = some c' ∧ c'.kind = c.kind ∧ c'.id = c.id ∧ c'.born = c.born

structure Tame (f : Conn → Conn) : Prop where
  kept : ∀ c, (f c).kind = c.kind ∧ (f c).id = c.id ∧ (f c).born = c.born
  closed : ∀ c, (f c).closed = false → c.closed = false

structure Quiet (f : Conn → Conn) : Prop extends Tame f where
  held : ∀ c, (f c).held = c.held

theorem Kept.refl (objs : List Conn) : Kept objs objs := fun _ c h => ⟨c, h, rfl, rfl, rfl⟩

theorem Kept.concat (objs : List Conn) (c : Conn) : Kept objs (objs ++ [c]) :=
  fun _ c h => ⟨c, getElem?_append_of_some h, rfl, rfl, rfl⟩

theorem Kept.modify (objs : List Conn) (ref : ℕ) (hf : Tame f) : Kept objs (objs.modify ref f) := by
  intro ref' c h
  refine ⟨if ref = ref' then f c else c, ?_, ?_⟩
  · rw [getElem?_modify, h]
    rfl
  · split_ifs
    · exact hf.kept c
    · exact ⟨rfl, rfl, rfl⟩

namespace Quiet

theorem ready (err : Option DialErr) : Quiet (Conn.ready err) :=
  ⟨⟨fun _ => ⟨rfl, rfl, rfl⟩, fun _ => id⟩, fun _ => rfl⟩

theorem remoteClosed : Quiet Conn.remoteClosed :=
  ⟨⟨fun _ => ⟨rfl, rfl, rfl⟩, fun _ h => Bool.noConfusion h⟩, fun _ => rfl⟩

theorem closeLocal : Quiet Conn.closeLocal :=
  ⟨⟨fun _ => ⟨rfl, rfl, rfl⟩, fun _ h => Bool.noConfusion h⟩, fun _ => rfl⟩

theorem takeSendCredit (size : ℕ) : Quiet (Conn.takeSendCredit size) :=
  ⟨⟨fun _ => ⟨rfl, rfl, rfl⟩, fun _ => id⟩, fun _ => rfl⟩

theorem buffer (payload : Bytes) : Quiet (Conn.buffer payload) :=
  ⟨⟨fun _ => ⟨rfl, rfl, rfl⟩, fun _ => id⟩, fun _ => rfl⟩

theorem consume (n : ℕ) : Quiet (Conn.consume n) :=
  ⟨⟨fun _ => ⟨rfl, rfl, rfl⟩, fun _ => id⟩, fun _ => rfl⟩

theorem addSendCredit (credit : ℕ) : Quiet fun c => if c.kind = .tunnelConn then c.addSendCredit credit else c := by
  unfold Conn.addSendCredit
  refine ⟨⟨fun c => ?_, fun c h => ?_⟩, fun c => ?_⟩
  · split_ifs <;> exact ⟨rfl, rfl, rfl⟩
  · split_ifs at h <;> exact h
  · split_ifs <;> rfl

end Quiet

theorem Own.mono (h : Own s ref) (hepoch : t.epoch = s.epoch) (hkept : Kept s.objs t.objs) : Own t ref := by
  obtain ⟨c, hc, hborn⟩ := h
  obtain ⟨c', hc', -, -, hborn'⟩ := hkept ref c hc
  exact ⟨c', hc', by rw [hborn', hborn, hepoch]⟩

theorem OwnEntry.mono {id : UInt32} (h : OwnEntry s table id ref)
    (hepoch : t.epoch = s.epoch) (hkept : Kept s.objs t.objs) : OwnEntry t table id ref := by
  obtain ⟨c, hc, hborn, htable, hid⟩ := h
  obtain ⟨c', hc', hkind', hid', hborn'⟩ := hkept ref c hc
  exact ⟨c', hc', by rw [hborn', hborn, hepoch], by rw [hkind', htable], by rw [hid', hid]⟩

theorem OwnEntry.own {id : UInt32} (h : OwnEntry s table id ref) : Own s ref := by
  obtain ⟨c, hc, hborn, -⟩ := h
  exact ⟨c, hc, hborn⟩

theorem Instr.Current.mono {instr : Instr} (h : instr.Current s) (hepoch : t.epoch = s.epoch)
    (hreturned : s.returned = true → t.returned = true) (hkept : Kept s.objs t.objs) : instr.Current t := by
  cases instr with
  | sendVia via f => exact Eq.trans h hepoch.symm
  | store table id ref | storeEgress id ref => exact OwnEntry.mono h hepoch hkept
  | hold ref | awaitReady ref => exact Own.mono h hepoch hkept
  | handle f => exact hreturned h
  | unlock => exact hreturned h
  | _ => trivial

theorem Op.Current.mono (h : op.Current s) (hepoch : t.epoch = s.epoch)
    (hreturned : s.returned = true → t.returned = true) (hkept : Kept s.objs t.objs) : op.Current t :=
  ⟨h.1.trans hepoch.symm, h.2.mono hepoch hreturned hkept⟩

end Keeping

variable {c : Conn} {cause i : ℕ} {instrs : List Instr}

namespace Sound

theorem start (mode : Mode) (acceptHandler udpAcceptHandler flowControl : Bool) :
    Sound (start mode acceptHandler udpAcceptHandler flowControl) where
  tasks := forall_mem_nil _
  born := forall_mem_nil _
  entries := by intro table id ref h; cases table <;> simp [Swap.start, RelayBridge.lookup] at h
  older := by intro ref c h; simp [Swap.start] at h
  locked := Bool.noConfusion
  events := forall_mem_nil _

section

variable (h : Sound s)
include h

theorem with_tasks {tasks : List (List Op)} (htasks : ∀ t ∈ tasks, ∀ op ∈ t, op.Current s) :
    Sound { s with tasks := tasks } :=
  ⟨htasks, h.born, h.entries, h.older, h.locked, h.events⟩

theorem goto {ops : List Op} (hops : ∀ op ∈ ops, op.Current s) : Sound (s.goto i ops) := by
  apply h.with_tasks
  exact forall_mem_set h.tasks hops

theorem spawn (hcause : cause = s.epoch) {is : List Instr}
    (his : ∀ instr ∈ is, instr.Current s) : Sound (s.spawn cause is) := by
  apply h.with_tasks
  apply forall_mem_concat h.tasks
  intro op hop
  obtain ⟨instr, hinstr, rfl⟩ := List.mem_map.mp hop
  exact ⟨hcause, his instr hinstr⟩

theorem record {e : Event} (he : e.mixes = false) : Sound (s.record e) :=
  ⟨h.tasks, h.born, h.entries, h.older, h.locked, forall_mem_concat h.events he⟩

theorem create (hborn : c.born = s.epoch) : Sound (s.create c) := by
  have hkept := Kept.concat s.objs c
  refine ⟨?_, forall_mem_concat h.born (Nat.le_of_eq hborn), ?_, ?_, h.locked, h.events⟩
  · exact fun t ht op hop => (h.tasks t ht op hop).mono rfl id hkept
  · intro table id ref hlookup
    obtain ⟨c', hc', hentry⟩ := h.entries table id ref hlookup
    exact ⟨c', getElem?_append_of_some hc', hentry⟩
  · intro ref c' hget hopen hold hreach
    rcases getElem?_concat_cases hget with hget | ⟨-, rfl⟩
    · exact h.older ref c' hget hopen hold hreach
    · exact absurd hborn hold

theorem modify (hf : Tame f)
    (hheld : ∀ c, s.objs[ref]? = some c → (f c).held = true → c.held = true ∨ c.born = s.epoch) :
    Sound (s.modify ref f) := by
  have hkept := Kept.modify s.objs ref hf
  refine ⟨?_, ?_, ?_, ?_, h.locked, h.events⟩
  · exact fun t ht op hop => (h.tasks t ht op hop).mono rfl id hkept
  · intro c' hc'
    obtain ⟨ref', hget⟩ := mem_iff_getElem?.mp hc'
    simp only [RelayBridge.modify, getElem?_modify] at hget
    obtain ⟨c, hc, rfl⟩ := map_eq_some_iff.mp hget
    have hle := h.born c (mem_of_getElem? hc)
    split_ifs
    · exact (hf.kept c).2.2.symm ▸ hle
    · exact hle
  · intro table id ref' hlookup
    obtain ⟨c, hc, htable, hid⟩ := h.entries table id ref' hlookup
    obtain ⟨c', hc', hkind', hid', -⟩ := hkept ref' c hc
    exact ⟨c', hc', by rw [hkind', htable], by rw [hid', hid]⟩
  · intro ref' c' hget hopen hold hreach
    simp only [RelayBridge.modify, getElem?_modify] at hget
    obtain ⟨c, hc, rfl⟩ := map_eq_some_iff.mp hget
    split_ifs at hopen hold hreach ⊢ with heq
    · subst heq
      obtain ⟨hkind, hid, hborn⟩ := hf.kept c
      rw [hborn] at hold
      have hreach' : Reachable s ref c := by
        rcases hreach with hheld' | hlookup
        · exact .inl ((hheld c hc hheld').resolve_right hold)
        · rw [hkind, hid] at hlookup
          exact .inr hlookup
      have hwait := h.older ref c hc (hf.closed c hopen) hold hreach'
      unfold Waiting at hwait ⊢
      rw [hkind, hid]
      exact hwait
    · exact h.older ref' c hc hopen hold hreach

variable (hi : s.tasks[i]? = some (op :: rest))

include hi

theorem current_rest : ∀ op' ∈ rest, op'.Current s :=
  fun op' hop' => h.tasks _ (mem_of_getElem? hi) op' (mem_cons_of_mem op hop')

theorem goto_rest : Sound (s.goto i rest) :=
  h.goto (h.current_rest hi)

theorem next (hcause : cause = s.epoch) (hinstrs : ∀ instr ∈ instrs, instr.Current s) :
    Sound (s.next i cause rest instrs) := by
  apply h.goto
  intro op' hop'
  rcases mem_append.mp hop' with hnew | hold
  · obtain ⟨instr, hinstr, rfl⟩ := List.mem_map.mp hnew
    exact ⟨hcause, hinstrs instr hinstr⟩
  · exact h.current_rest hi op' hold

end

end Sound

theorem Waiting.ne_spare {id : UInt32} (h : Waiting s ref c)
    (hc : s.objs[ref]? = some c) (hopen : c.closed = false) (hold : c.born ≠ s.epoch)
    (hspare : s.returned = true ∨ spare s table id = true) : ¬ (c.kind.table = table ∧ c.id = id) := by
  rintro ⟨rfl, rfl⟩
  rcases hspare with hreturned | hspare
  · exact Bool.noConfusion (h.1.symm.trans hreturned)
  · simp [spare, h.2.1, hc, hopen, hold] at hspare

structure SameRest (s t : RelayBridge) : Prop where
  tasks : t.tasks = s.tasks
  epoch : t.epoch = s.epoch
  returned : t.returned = s.returned
  locked : t.locked = s.locked
  sweep : t.sweep = s.sweep
  objs : t.objs = s.objs
  events : t.events = s.events

section

variable (s : RelayBridge)

theorem sameRest_insert (table : Table) (id : UInt32) (ref : ℕ) : SameRest s (s.insert table id ref) := by
  cases table <;> exact ⟨rfl, rfl, rfl, rfl, rfl, rfl, rfl⟩

theorem unvisited_insert (table : Table) (id : UInt32) (ref : ℕ) :
    (s.insert table id ref).unvisited = s.unvisited := by
  cases table <;> rfl

theorem sameRest_erase (table : Table) (id : UInt32) : SameRest s (s.erase table id) := by
  unfold erase
  split_ifs <;> cases table <;> exact ⟨rfl, rfl, rfl, rfl, rfl, rfl, rfl⟩

theorem mem_unvisited_erase {id id' : UInt32} (h : id' ∈ s.unvisited)
    (hne : s.sweep = .ranging table → id' ≠ id) : id' ∈ (s.erase table id).unvisited := by
  unfold erase
  split_ifs with hsweep
  · have hmem : id' ∈ s.unvisited.filter (· ≠ id) := by simpa using ⟨h, hne hsweep⟩
    cases table <;> exact hmem
  · cases table <;> exact h

theorem recordEntry_eq (cause : ℕ) (table : Table) (id : UInt32) :
    ∃ events, s.recordEntry cause table id = { s with events := events } := by
  unfold recordEntry
  split
  · exact ⟨s.events, rfl⟩
  · exact ⟨_, rfl⟩

end

structure SameRun (s t : RelayBridge) : Prop where
  tasks : t.tasks = s.tasks
  epoch : t.epoch = s.epoch
  returned : t.returned = s.returned

section

variable (s : RelayBridge)

theorem sameRun_store (cause : ℕ) (table : Table) (id : UInt32) (ref : ℕ) :
    SameRun s (s.store cause table id ref) := by
  obtain ⟨events, heq⟩ := recordEntry_eq s cause table id
  have hsame := sameRest_insert { s with events := events } table id ref
  rw [RelayBridge.store, heq]
  exact ⟨hsame.tasks, hsame.epoch, hsame.returned⟩

theorem sameRun_delete (cause : ℕ) (table : Table) (id : UInt32) : SameRun s (s.delete cause table id) := by
  obtain ⟨events, heq⟩ := recordEntry_eq s cause table id
  have hsame := sameRest_erase { s with events := events } table id
  rw [RelayBridge.delete, heq]
  exact ⟨hsame.tasks, hsame.epoch, hsame.returned⟩

theorem sameRun_closeEntry (table : Table) (id : UInt32) : SameRun s (closeEntry s table id) := by
  unfold closeEntry
  split
  · exact ⟨rfl, rfl, rfl⟩
  · have hsame := sameRun_delete s s.epoch table id
    exact ⟨hsame.tasks, hsame.epoch, hsame.returned⟩

theorem handleFlowCredit_tasks (f : Frame) : (handleFlowCredit s f).tasks = s.tasks := by
  unfold handleFlowCredit
  split_ifs
  · rfl
  · rfl
  · split <;> rfl

end

theorem Waiting.erase {id : UInt32} (h : Waiting s ref c)
    (hslot : ¬ (c.kind.table = table ∧ c.id = id)) : Waiting (s.erase table id) ref c := by
  have hsame := sameRest_erase s table id
  obtain ⟨hreturned, hlookup, hphase⟩ := h
  refine ⟨hsame.returned.trans hreturned, by rw [lookup_erase, if_neg hslot, hlookup], ?_⟩
  rw [hsame.sweep]
  split
  · next hidle => rwa [hidle] at hphase
  · trivial
  · next hconns =>
    rw [hconns] at hphase
    intro htable
    apply mem_unvisited_erase s (hphase htable)
    intro hsweep hid
    rw [hconns] at hsweep
    cases hsweep
    exact hslot ⟨htable, hid⟩
  · next hudp =>
    rw [hudp] at hphase
    refine ⟨hphase.1, mem_unvisited_erase s hphase.2 ?_⟩
    intro hsweep hid
    rw [hudp] at hsweep
    cases hsweep
    exact hslot ⟨hphase.1, hid⟩

namespace Sound

section

variable (h : Sound s)
include h

theorem of_sameRest (hsame : SameRest s t) (hentries : ∀ table id ref, t.lookup table id = some ref →
      ∃ c, s.objs[ref]? = some c ∧ c.kind.table = table ∧ c.id = id)
    (hreach : ∀ ref c, s.objs[ref]? = some c → c.born ≠ s.epoch →
      t.lookup c.kind.table c.id = some ref → s.lookup c.kind.table c.id = some ref)
    (hwait : ∀ ref c, s.objs[ref]? = some c → c.closed = false → c.born ≠ s.epoch → Waiting s ref c →
      Waiting t ref c) : Sound t := by
  refine ⟨?_, ?_, ?_, ?_, ?_, ?_⟩
  · rw [hsame.tasks]
    intro ops hops op hop
    apply (h.tasks ops hops op hop).mono hsame.epoch (fun hr => hsame.returned.trans hr)
    rw [hsame.objs]
    exact .refl _
  · rw [hsame.objs, hsame.epoch]
    exact h.born
  · rw [hsame.objs]
    exact hentries
  · rw [hsame.objs, hsame.epoch]
    intro ref c hc hopen hold hreachable
    apply hwait ref c hc hopen hold
    exact h.older ref c hc hopen hold (hreachable.imp_right (hreach ref c hc hold))
  · rw [hsame.returned, hsame.locked]
    exact h.locked
  · rw [hsame.events]
    exact h.events

theorem modify_quiet (ref : ℕ) (hf : Quiet f) : Sound (s.modify ref f) :=
  h.modify hf.toTame fun c _ hheld => .inl ((hf.held c).symm.trans hheld)

theorem recordEntry (hcause : cause = s.epoch) (table : Table) (id : UInt32) :
    Sound (s.recordEntry cause table id) := by
  unfold RelayBridge.recordEntry
  split
  · exact h
  · next c hc =>
    apply h.record
    obtain ⟨ref, -, hc⟩ := bind_eq_some_iff.mp hc
    have hborn : ¬ cause < c.born := Nat.not_lt.mpr (hcause ▸ h.born c (mem_of_getElem? hc))
    simp [Event.mixes, hborn]

variable {id : UInt32} (hspare : s.returned = true ∨ spare s table id = true)

include hspare

theorem insert (hentry : OwnEntry s table id ref) : Sound (s.insert table id ref) := by
  obtain ⟨c, hc, hborn, htable, hid⟩ := hentry
  refine h.of_sameRest (sameRest_insert s table id ref) ?_ ?_ ?_
  · intro table' id' ref' hlookup
    rw [lookup_insert] at hlookup
    split_ifs at hlookup with hslot
    · cases hlookup
      exact ⟨c, hc, htable.trans hslot.1.symm, hid.trans hslot.2.symm⟩
    · exact h.entries table' id' ref' hlookup
  · intro ref' c' hc' hold hlookup
    rw [lookup_insert] at hlookup
    split_ifs at hlookup
    · cases hlookup
      cases hc.symm.trans hc'
      exact absurd hborn hold
    · exact hlookup
  · intro ref' c' hc' hopen hold hwait
    have hslot := hwait.ne_spare hc' hopen hold hspare
    have hsame := sameRest_insert s table id ref
    unfold Waiting at hwait ⊢
    rw [lookup_insert, if_neg hslot, hsame.returned, hsame.sweep, unvisited_insert]
    exact hwait

theorem erase : Sound (s.erase table id) := by
  refine h.of_sameRest (sameRest_erase s table id) ?_ ?_ ?_
  · intro table' id' ref' hlookup
    rw [lookup_erase] at hlookup
    split_ifs at hlookup
    exact h.entries table' id' ref' hlookup
  · intro ref' c' hc' hold hlookup
    rw [lookup_erase] at hlookup
    split_ifs at hlookup
    exact hlookup
  · intro ref' c' hc' hopen hold hwait
    have hslot := hwait.ne_spare hc' hopen hold hspare
    exact hwait.erase hslot

theorem store (hcause : cause = s.epoch) (hentry : OwnEntry s table id ref) :
    Sound (s.store cause table id ref) := by
  have hrecord := h.recordEntry hcause table id
  obtain ⟨events, heq⟩ := recordEntry_eq s cause table id
  rw [RelayBridge.store]
  rw [heq] at hrecord ⊢
  exact hrecord.insert hspare hentry

theorem delete (hcause : cause = s.epoch) : Sound (s.delete cause table id) := by
  have hrecord := h.recordEntry hcause table id
  obtain ⟨events, heq⟩ := recordEntry_eq s cause table id
  rw [RelayBridge.delete]
  rw [heq] at hrecord ⊢
  exact hrecord.erase hspare

end

theorem current_closeInstrs (s : RelayBridge) (c : Conn) : ∀ instr ∈ c.closeInstrs, instr.Current s := by
  unfold Conn.closeInstrs
  split <;> simp [Current]

theorem current_writeInstrs (s : RelayBridge) (c : Conn) (ref : ℕ) (b : Bytes) :
    ∀ instr ∈ c.writeInstrs ref b, instr.Current s := by
  unfold Conn.writeInstrs
  split
  · split_ifs
    · intro instr hinstr
      obtain ⟨k, -, hk⟩ := mem_flatMap.mp hinstr
      rcases mem_pair.mp hk with rfl | rfl <;> trivial
    · exact forall_mem_singleton.mpr trivial
  · exact forall_mem_singleton.mpr trivial
  · exact forall_mem_singleton.mpr trivial
  · exact nofun
  · exact nofun

theorem ownEntry_create (s : RelayBridge) (hborn : c.born = s.epoch) :
    OwnEntry (s.create c) c.kind.table c.id s.objs.length := by
  refine ⟨c, ?_, hborn, rfl, rfl⟩
  rw [RelayBridge.create, getElem?_append_right le_rfl, Nat.sub_self, getElem?_cons_zero]

theorem registered_lookup (hmet : registered s = true) (hc : s.objs[ref]? = some c)
    (hopen : c.closed = false) (hheld : c.held = true) : s.lookup c.kind.table c.id = some ref := by
  have hmem : (c, ref) ∈ s.objs.zipIdx := mk_mem_zipIdx_iff_getElem?.mpr hc
  simpa [hopen, hheld] using List.all_eq_true.mp hmet _ hmem

variable {s' : RelayBridge} {outcome : Outcome} {a : Act} (h : Sound s)

include h

theorem with_sweep (sweep : Sweep) (unvisited visited : List UInt32)
    (hwait : ∀ ref c, Waiting s ref c →
      Waiting { s with sweep := sweep, unvisited := unvisited, visited := visited } ref c) :
    Sound { s with sweep := sweep, unvisited := unvisited, visited := visited } :=
  ⟨h.tasks, h.born, h.entries, fun ref c hc hopen hold hreach => hwait ref c (h.older ref c hc hopen hold hreach),
    h.locked, h.events⟩

theorem begin_conns :
    Sound { s with sweep := .ranging .conns, unvisited := s.keys .conns, visited := [] } := by
  apply h.with_sweep
  intro ref c hwait
  refine ⟨hwait.1, hwait.2.1, fun htable => ?_⟩
  have hlookup : s.lookup .conns c.id = some ref := htable ▸ hwait.2.1
  exact mem_keys_of_lookup s hlookup

theorem begin_udpClients (hsweep : s.sweep = .ranging .conns) (hunvisited : s.unvisited = []) :
    Sound { s with sweep := .ranging .udpClients, unvisited := s.keys .udpClients, visited := [] } := by
  apply h.with_sweep
  rintro ref c ⟨hreturned, hlookup, hphase⟩
  rw [hsweep, hunvisited] at hphase
  have htable : c.kind.table = .udpClients := by
    cases hkind : c.kind.table with
    | conns => exact absurd (hphase hkind) not_mem_nil
    | udpClients => rfl
  refine ⟨hreturned, hlookup, htable, ?_⟩
  rw [htable] at hlookup
  exact mem_keys_of_lookup s hlookup

theorem finish_sweep (hsweep : s.sweep = .ranging .udpClients) (hunvisited : s.unvisited = []) :
    Sound { s with sweep := .idle, locked := false, returned := true } := by
  refine ⟨?_, h.born, h.entries, ?_, fun hr => Bool.noConfusion hr, h.events⟩
  · exact fun t ht op hop => (h.tasks t ht op hop).mono rfl (fun _ => rfl) (.refl _)
  · intro ref c hc hopen hold hreach
    have hphase := (h.older ref c hc hopen hold hreach).2.2
    rw [hsweep, hunvisited] at hphase
    exact absurd hphase.2 not_mem_nil

theorem visit {id : UInt32} (hlookup : s.lookup table id = some ref)
    (visited : List UInt32) : Sound { (s.modify ref Conn.closeLocal).erase table id with visited := visited } := by
  have hmodify := h.modify_quiet ref Quiet.closeLocal
  have hspare : spare (s.modify ref Conn.closeLocal) table id = true := by
    have hlookup' : (s.modify ref Conn.closeLocal).lookup table id = some ref := by
      cases table <;> exact hlookup
    rw [spare, hlookup', bind_some, RelayBridge.modify, getElem?_modify]
    cases s.objs[ref]? with
    | none => rfl
    | some c => simp [Conn.closeLocal, Conn.remoteClosed]
  have herase := hmodify.erase (.inr hspare)
  exact ⟨herase.tasks, herase.born, herase.entries, herase.older, herase.locked, herase.events⟩

theorem sweepStep (hi : s.tasks[i]? = some (op :: rest)) (hstep : sweepStep s i op rest outcome = some s') :
    Sound s' := by
  have hops : ∀ op' ∈ op :: rest, op'.Current s := h.tasks _ (mem_of_getElem? hi)
  unfold Swap.sweepStep at hstep
  split at hstep
  · cases hstep
    exact h.begin_conns.goto hops
  · cases hstep
    exact h.begin_conns.goto hops
  · next table hsweep =>
    split at hstep
    · next id =>
      split_ifs at hstep
      obtain ⟨ref, hlookup, rfl⟩ := map_eq_some_iff.mp hstep
      have hvisit := h.visit hlookup (id :: s.visited)
      have hsame := sameRest_erase (s.modify ref Conn.closeLocal) table id
      apply hvisit.goto
      apply hvisit.tasks
      exact hsame.tasks ▸ mem_of_getElem? hi
    · split_ifs at hstep with hunvisited
      split at hstep
      · cases hstep
        exact (h.begin_udpClients hsweep hunvisited).goto hops
      · cases hstep
        exact (h.finish_sweep hsweep hunvisited).goto_rest hi

theorem born_of_lookup (hreturned : s.returned = true) {id : UInt32} (hlookup : s.lookup table id = some ref)
    (hc : s.objs[ref]? = some c) (hopen : c.closed = false) : c.born = s.epoch := by
  by_contra hold
  obtain ⟨c', hc', htable, hid⟩ := h.entries table id ref hlookup
  cases hc.symm.trans hc'
  have hwait := h.older ref c hc hopen hold (.inr (htable.symm ▸ hid.symm ▸ hlookup))
  exact Bool.noConfusion (hwait.1.symm.trans hreturned)

theorem handleFlowCredit (f : Frame) : Sound (handleFlowCredit s f) := by
  unfold Swap.handleFlowCredit
  split_ifs
  · exact h
  · exact h
  · split
    · exact h
    · exact h.modify_quiet _ (Quiet.addSendCredit _)

theorem closeEntry (hreturned : s.returned = true) (table : Table) (id : UInt32) :
    Sound (closeEntry s table id) := by
  unfold Swap.closeEntry
  split
  · exact h
  · exact (h.delete (.inl hreturned) rfl).modify_quiet _ Quiet.remoteClosed

section Callbacks

variable (hi : s.tasks[i]? = some (op :: rest)) (hreturned : s.returned = true)
include hi hreturned

theorem deliver {id : UInt32} (hlookup : s.lookup .conns id = some ref) (payload : Bytes) :
    Sound (deliver s i rest ref payload) := by
  unfold Swap.deliver
  split
  · exact h.goto_rest hi
  · next c hc =>
    split_ifs with hclosed
    · exact h.goto_rest hi
    · have hborn := h.born_of_lookup hreturned hlookup hc (Bool.eq_false_iff.mpr hclosed)
      exact (h.modify_quiet ref Quiet.closeLocal).next hi hborn (current_closeInstrs _ c)
    · exact (h.modify_quiet ref (Quiet.buffer payload)).goto_rest hi

variable (f : Frame)

theorem handleJoinerMessage : Sound (handleJoinerMessage s i rest f) := by
  unfold Swap.handleJoinerMessage
  split
  · exact h.goto_rest hi
  · split
    · exact h.goto_rest hi
    · next ref hlookup =>
      split_ifs
      · exact (h.modify_quiet ref (Quiet.ready _)).goto_rest hi
      · exact (h.modify_quiet ref (Quiet.ready _)).goto_rest hi
      · exact h.deliver hi hreturned hlookup f.payload
      · exact (h.modify_quiet ref Quiet.remoteClosed).next hi rfl (by simp [Current])
      · exact h.goto_rest hi

theorem handleCreatorMessage : Sound (handleCreatorMessage s i rest f) := by
  unfold Swap.handleCreatorMessage
  split
  · split
    · have hentry := ownEntry_create s (c := newConn .tunnelConn f.connID f.payload s.epoch s.flowControl) rfl
      apply (h.create rfl).next hi rfl
      rw [forall_mem_cons, forall_mem_cons, forall_mem_singleton]
      exact ⟨hentry, trivial, hentry.own⟩
    · apply (h.spawn rfl (by simp [Current])).goto
      exact h.current_rest hi
  · split
    · apply (h.spawn rfl (by simp [Current])).goto
      exact h.current_rest hi
    · split
      · split
        · exact h.next hi rfl (by simp [Current])
        · next ref c hfound =>
          obtain ⟨ref', hlookup, c', -, hpair⟩ := bind_map_eq_some hfound
          cases hpair
          split
          · exact h.deliver hi hreturned hlookup f.payload
          · exact h.goto_rest hi
      · split
        · have hconns := h.closeEntry hreturned .conns f.connID
          have hsame := sameRun_closeEntry s .conns f.connID
          have hudp := hconns.closeEntry (hsame.returned.trans hreturned) .udpClients f.connID
          have hsame' := sameRun_closeEntry (Swap.closeEntry s .conns f.connID) .udpClients f.connID
          exact hudp.goto_rest (by rw [hsame'.tasks, hsame.tasks, hi])
        · exact h.goto_rest hi

theorem handleTunnelData : Sound (handleTunnelData s i rest f) := by
  unfold Swap.handleTunnelData
  split
  · apply (h.handleFlowCredit f).goto_rest
    rw [handleFlowCredit_tasks, hi]
  · split
    · split
      · exact h.next hi rfl (by simp [Current])
      · exact h.goto_rest hi
    · split
      · exact h.goto_rest hi
      · split
        · exact h.handleJoinerMessage hi hreturned f
        · exact h.handleCreatorMessage hi hreturned f

end Callbacks

theorem runOp (hi : s.tasks[i]? = some (op :: rest)) (hmet : orderly s (.run i outcome) = true)
    (hstep : runOp s i op rest outcome = some s') : Sound s' := by
  obtain ⟨cause, instr⟩ := op
  obtain ⟨hcause, hcurrent⟩ := h.tasks _ (mem_of_getElem? hi) _ mem_cons_self
  dsimp only at hcause hcurrent
  simp only [orderly, hi] at hmet
  simp only [Swap.runOp] at hstep
  cases instr with
  | send f =>
    cases hstep
    exact h.next hi hcause (by simp [Current])
  | sendVia via f =>
    cases hstep
    have hvia : via = s.epoch := hcurrent
    refine (h.record ?_).next hi hcause nofun
    simp [Event.mixes, hcause, hvia]
  | store table id ref =>
    cases hstep
    have hsame := sameRun_store s cause table id ref
    have hstore := h.store (by simpa using hmet) hcause hcurrent
    exact hstore.next (by rw [hsame.tasks, hi]) (by rw [hsame.epoch, hcause]) nofun
  | delete table id =>
    cases hstep
    have hsame := sameRun_delete s cause table id
    have hdelete := h.delete (by simpa using hmet) hcause
    exact hdelete.next (by rw [hsame.tasks, hi]) (by rw [hsame.epoch, hcause]) nofun
  | hold ref =>
    cases hstep
    obtain ⟨c, hc, hborn⟩ : Own s ref := hcurrent
    have htame : Tame Conn.hold := ⟨fun _ => ⟨rfl, rfl, rfl⟩, fun _ => id⟩
    refine (h.modify htame ?_).next hi hcause nofun
    intro c' hc' _
    cases hc.symm.trans hc'
    exact .inr hborn
  | awaitReady ref =>
    obtain ⟨c, hc, hstep⟩ := bind_eq_some_iff.mp hstep
    split at hstep
    · cases hstep
      exact h.next hi hcause (by simp [Current])
    · obtain ⟨err, -, hstep⟩ := bind_eq_some_iff.mp hstep
      cases hstep
      apply h.next hi hcause
      split_ifs
      · exact forall_mem_singleton.mpr trivial
      · exact forall_mem_singleton.mpr hcurrent
  | takeSendCredit ref size =>
    obtain ⟨c, hc, hstep⟩ := bind_eq_some_iff.mp hstep
    split_ifs at hstep
    · cases hstep
      exact (h.modify_quiet ref (Quiet.takeSendCredit size)).next hi hcause nofun
    · cases hstep
      exact h.goto nofun
  | returnReadCredit ref n =>
    obtain ⟨c, hc, hstep⟩ := bind_eq_some_iff.mp hstep
    split_ifs at hstep
    · cases hstep
      exact h.next hi hcause nofun
    · cases hstep
      exact h.next hi hcause (by simp [Current])
  | dialTCP id addr =>
    dsimp only at hstep
    split at hstep
    · cases hstep
      exact h.next hi hcause (by simp [Current])
    · cases hstep
      have hentry := ownEntry_create s (c := newConn .target id addr cause false) hcause
      apply (h.create hcause).next hi hcause
      rw [forall_mem_cons, forall_mem_cons, forall_mem_singleton]
      exact ⟨hentry, trivial, trivial⟩
  | readTarget ref =>
    obtain ⟨c, hc, hstep⟩ := bind_eq_some_iff.mp hstep
    split at hstep
    · split_ifs at hstep
      all_goals
        cases hstep
        exact h.next hi hcause (by simp [Current])
    · split_ifs at hstep
      cases hstep
      exact h.next hi hcause (by simp [Current])
    · cases hstep
      exact h.next hi hcause (by simp [Current])
  | handleUDP id payload =>
    dsimp only at hstep
    split at hstep
    · cases hstep
      exact h.next hi hcause nofun
    · split at hstep
      · cases hstep
        exact h.next hi hcause nofun
      · cases hstep
        apply h.next hi hcause
        split_ifs <;> exact forall_mem_singleton.mpr trivial
  | acceptUDP id addr =>
    dsimp only at hstep
    split at hstep
    · cases hstep
      exact h.next hi hcause nofun
    · next hlookup =>
      cases hstep
      have hentry := ownEntry_create s (c := newConn .creatorUDPConn id addr cause false) hcause
      have hspare : spare (s.create (newConn .creatorUDPConn id addr cause false)) .udpClients id = true := by
        simp [spare, show (s.create (newConn .creatorUDPConn id addr cause false)).lookup .udpClients id = none from
          hlookup]
      exact ((h.create hcause).insert (.inr hspare) hentry).next hi hcause (forall_mem_singleton.mpr hentry.own)
  | dialUDP id addr =>
    dsimp only at hstep
    split at hstep
    · cases hstep
      exact h.next hi hcause nofun
    · cases hstep
      have hentry := ownEntry_create s (c := newConn .egress id addr cause false) hcause
      exact (h.create hcause).next hi hcause (forall_mem_singleton.mpr hentry)
  | storeEgress id ref =>
    dsimp only at hstep
    split at hstep
    · cases hstep
      exact h.next hi hcause (by simp [Current])
    · next hlookup =>
      cases hstep
      have hinsert := h.insert (.inr (by simp [spare, hlookup])) hcurrent
      have hread : ∀ instr ∈ [readEgress ref], instr.Current (s.insert .udpClients id ref) :=
        forall_mem_singleton.mpr trivial
      have hspawn := hinsert.spawn hcause hread
      exact hspawn.goto (hinsert.current_rest hi)
  | readEgress ref =>
    obtain ⟨c, hc, hstep⟩ := bind_eq_some_iff.mp hstep
    split at hstep
    · split_ifs at hstep
      cases hstep
      exact h.next hi hcause (by simp [Current])
    · cases hstep
      exact h.next hi hcause (by simp [Current])
  | close ref =>
    cases hstep
    exact (h.modify_quiet ref Quiet.closeLocal).next hi hcause nofun
  | handle f =>
    cases hstep
    exact h.handleTunnelData hi hcurrent f
  | unlock =>
    cases hstep
    have hreturned : s.returned = true := hcurrent
    have hunlock : Sound { s with locked := false } :=
      ⟨h.tasks, h.born, h.entries, h.older, fun hr => Bool.noConfusion (hreturned.symm.trans hr), h.events⟩
    exact hunlock.next hi hcause nofun
  | closeAll => exact h.sweepStep hi hstep

theorem call {f : Conn → RelayBridge}
    (hmet : (s.returned || s.objs[ref]?.all fun c => c.closed || decide (c.born = s.epoch)) = true)
    (hf : ∀ c, c.born = s.epoch → Sound (f c)) (hstep : call s ref f = some s') : Sound s' := by
  obtain ⟨c, hc, hstep⟩ := bind_eq_some_iff.mp hstep
  split_ifs at hstep with hheld hclosed
  · cases hstep
    exact h
  · cases hstep
    apply hf
    by_contra hold
    have hopen : c.closed = false := Bool.eq_false_iff.mpr hclosed
    have hwait := h.older ref c hc hopen hold (.inl hheld)
    simp [hwait.1, hc, hopen, hold] at hmet

theorem publish (hquiet : s.tasks.all isEmpty = true) (hregistered : registered s = true)
    {k : ℕ} {generation : UInt64} {flowControl : Bool} : Sound ({ s with
      locked := true, swaps := s.swaps.eraseIdx k, tunnelGeneration := generation, flowControl := flowControl
      epoch := s.epoch + 1, returned := false, sweep := .due }.spawn (s.epoch + 1) [.closeAll]) := by
  apply Sound.spawn
  · refine ⟨?_, fun c hc => Nat.le_succ_of_le (h.born c hc), h.entries, ?_, fun _ => rfl, h.events⟩
    · intro t ht
      rw [List.isEmpty_iff.mp (List.all_eq_true.mp hquiet t ht)]
      exact nofun
    · intro ref c hc hopen hold hreach
      refine ⟨rfl, ?_, trivial⟩
      exact hreach.elim (registered_lookup hregistered hc hopen) id
  · rfl
  · exact forall_mem_singleton.mpr trivial

theorem open_conn {nextID : UInt32} (hborn : c.born = s.epoch)
    (hinstrs : ∀ instr ∈ instrs, instr.Current (s.create c)) :
    Sound (({ s with nextID := nextID }.create c).spawn s.epoch instrs) := by
  have hid : Sound { s with nextID := nextID } := ⟨h.tasks, h.born, h.entries, h.older, h.locked, h.events⟩
  exact (hid.create hborn).spawn rfl hinstrs

theorem lock (hinstrs : ∀ instr ∈ instrs, instr.Current s) :
    Sound ({ s with locked := true }.spawn s.epoch instrs) := by
  have hlock : Sound { s with locked := true } := ⟨h.tasks, h.born, h.entries, h.older, fun _ => rfl, h.events⟩
  exact hlock.spawn rfl hinstrs

theorem step (hmet : orderly s a = true) (hstep : step s a = some s') : Sound s' := by
  cases a with simp only [Swap.step] at hstep
  | dialContext destination =>
    cases hstep
    have hentry := ownEntry_create s (c := newConn .tunnelConn (s.nextID + 1) destination s.epoch s.flowControl) rfl
    apply h.open_conn rfl
    rw [forall_mem_cons, forall_mem_cons, forall_mem_singleton]
    exact ⟨hentry, trivial, hentry.own⟩
  | listenPacket destination =>
    cases hstep
    have hentry := ownEntry_create s (c := newConn .udpClient (s.nextID + 1) destination s.epoch false) rfl
    apply h.open_conn rfl
    rw [forall_mem_cons, forall_mem_singleton]
    exact ⟨hentry, hentry.own⟩
  | write ref b => exact h.call hmet (fun c hborn => h.spawn hborn (current_writeInstrs s c ref b)) hstep
  | read ref n =>
    refine h.call hmet (fun c hborn => ?_) hstep
    apply (h.modify_quiet ref (Quiet.consume n)).spawn hborn
    split_ifs
    · exact forall_mem_singleton.mpr trivial
    · exact nofun
  | close ref =>
    refine h.call hmet (fun c hborn => ?_) hstep
    exact (h.modify_quiet ref Quiet.closeLocal).spawn hborn (current_closeInstrs _ c)
  | onData generation data =>
    split_ifs at hstep with hlocked
    · cases hstep
      have hreturned : s.returned = true := by
        by_contra hr
        exact hlocked (h.locked (Bool.eq_false_iff.mpr hr))
      apply h.lock
      rw [forall_mem_append, forall_mem_singleton]
      exact ⟨List.forall_mem_map.mpr fun _ _ => hreturned, hreturned⟩
    · cases hstep
      exact h
  | onClose generation =>
    split_ifs at hstep
    · cases hstep
      exact h.lock (forall_mem_singleton.mpr trivial)
    · cases hstep
      exact h
  | swapTunnel =>
    cases hstep
    exact ⟨h.tasks, h.born, h.entries, h.older, h.locked, h.events⟩
  | publish k flowControl =>
    split_ifs at hstep
    obtain ⟨generation, -, rfl⟩ := map_eq_some_iff.mp hstep
    obtain ⟨hquiet, hregistered⟩ := (Bool.and_eq_true _ _).mp hmet
    exact h.publish hquiet hregistered
  | run i outcome =>
    split at hstep
    · next op rest hi => exact h.runOp hi hmet hstep
    · cases hstep

end Sound

theorem generations_apart (mode : Mode) (acceptHandler udpAcceptHandler flowControl : Bool) (acts : List Act)
    (s : RelayBridge) (hrun : Run step (orderly · ·) (start mode acceptHandler udpAcceptHandler flowControl) acts s) :
    ∀ e ∈ s.events, e.mixes = false :=
  (hrun.invariant (P := Sound) .step (.start _ _ _ _)).events

def swapAtRest : List Act :=
  [Act.dialContext [97], .run 0 .done, .run 0 .done, .run 0 .done, .onData 1 (Frame.encode ⟨1, msgConnectOK, []⟩),
    .run 1 .done, .run 1 .done, .run 0 .done, .run 0 .done, .write 0 [5], .run 2 .done, .run 2 .done,
    .swapTunnel, .publish 0 false, .dialContext [98], .run 3 .done, .run 4 .done, .run 3 (.visit 1), .run 3 .done,
    .run 3 .done, .run 4 .done, .run 4 .done, .close 0, .write 0 [6]]

theorem generations_apart_at_rest : ∃ s, (Run step (orderly · ·) (start .joiner false false false) swapAtRest s ∧
      s.events = [.sent 0 0 ⟨1, msgConnect, [97]⟩ true, .sent 0 0 ⟨1, msgData, [5]⟩ true,
        .sent 1 1 ⟨2, msgConnect, [98]⟩ true]) ∧ ∀ e ∈ s.events, e.mixes = false := by
  refine (Run.exists_of_decideWhile ?_).imp
    fun s ⟨hrun, hs⟩ => ⟨⟨hrun, hs⟩, generations_apart .joiner false false false swapAtRest s hrun⟩
  decide +kernel

def targetOutlives : List Act :=
  [Act.onData 1 (Frame.encode ⟨7, msgConnect, [97]⟩), .run 0 .done, .run 0 .done,
    .run 1 .done, .run 1 .done, .run 1 .done, .run 1 .done,
    .swapTunnel, .publish 0 false, .run 2 .done, .run 2 (.visit 7), .run 2 .done, .run 2 .done,
    .onData 2 (Frame.encode ⟨7, msgConnect, [97]⟩), .run 3 .done, .run 3 .done, .run 4 .done, .run 4 .done,
    .run 1 .done, .run 1 .done, .run 1 .done, .run 1 .done]

theorem target_outlives_swap : ∃ s, Run step anyStep (start .creator false false false) targetOutlives s ∧
      s.events.filter Event.mixes = [.sent 1 0 ⟨7, msgClose, []⟩ true, .removed .conns 7 1 0 true] := by
  apply Run.exists_of_decide
  decide +kernel

end Hydracore.Call.Swap
