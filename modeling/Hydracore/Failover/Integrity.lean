import Hydracore.Failover.Stream

/-!
What one `failoverConn` reads is what the other was given to write, over any number of reconnections.
-/

namespace Hydracore.Failover.Stream

open Formats Systems List Option Function Ends Wire

def slot (f : ℕ) : ℕ := f % 2 ^ 32 % bufferSize

theorem slot_eq (f : ℕ) : (UInt32.ofNat f).toNat % bufferSize = slot f := by
  rw [UInt32.toNat_ofNat', slot]

theorem slot_ne {r d f g : ℕ} (hd : d ≤ bufferSize) (h : r % 2 ^ 32 ≤ (r + d) % 2 ^ 32 ∨ d ≤ 6) (hf : r ≤ f)
    (hfg : f < g) (hg : g < r + d) : slot g ≠ slot f := by
  have hten : bufferSize = 10 := rfl
  rw [slot, slot, hten]
  obtain hsame | hround : g / 2 ^ 32 = f / 2 ^ 32 ∨ g / 2 ^ 32 = f / 2 ^ 32 + 1 := by omega
  · have hmod : g % 2 ^ 32 = f % 2 ^ 32 + (g - f) := by omega
    omega
  · have hmod : g % 2 ^ 32 + 2 ^ 32 = f % 2 ^ 32 + (g - f) := by omega
    have hsix : d ≤ 6 := by omega
    omega

theorem replay_some {writeBuffers : ℕ → Bytes} {writeIndex : UInt32} {room r : ℕ} {buffers : List Bytes}
    (h : replay writeBuffers writeIndex room (UInt32.ofNat r) = some buffers) :
    ∃ d ≤ room, writeIndex = UInt32.ofNat (r + d) ∧ buffers = (range' r d).map fun f => writeBuffers (slot f) := by
  induction room generalizing r buffers with
  | zero =>
    rw [replay] at h
    split_ifs at h with heq
    cases h
    exact ⟨0, le_rfl, heq.symm, rfl⟩
  | succ room ih =>
    rw [replay] at h
    split_ifs at h with heq
    · cases h
      exact ⟨0, Nat.zero_le _, heq.symm, rfl⟩
    · obtain ⟨rest, hrest, rfl⟩ := map_eq_some_iff.mp h
      have hnext : UInt32.ofNat r + 1 = UInt32.ofNat (r + 1) := (UInt32.ofNat_add r 1).symm
      rw [hnext] at hrest
      obtain ⟨d, hd, hindex, rfl⟩ := ih hrest
      refine ⟨d + 1, by omega, by rw [hindex]; congr 1; omega, ?_⟩
      rw [range'_succ, map_cons, slot_eq]

namespace Endpoint

def Writes (e : Endpoint) (c : ℕ) : Prop := e.conn = c ∧ e.writing = true ∧ e.closed = false

def Reads (e : Endpoint) (c : ℕ) : Prop := e.conn = c ∧ e.reading = true ∧ e.closed = false

theorem not_writes {e : Endpoint} (h : e.closed = true) (c : ℕ) : ¬e.Writes c :=
  fun hwrites => Bool.noConfusion (h.symm.trans hwrites.2.2)

theorem not_reads {e : Endpoint} (h : e.closed = true) (c : ℕ) : ¬e.Reads c :=
  fun hreads => Bool.noConfusion (h.symm.trans hreads.2.2)

def owed (e : Endpoint) : Option ℕ → Bytes
  | none => []
  | some r => frames (e.calls.drop r)

def Saves (e : Endpoint) : Prop :=
  ∀ f < e.written.length, (∀ g, f < g → g < e.written.length → slot g ≠ slot f) →
    e.written[f]? = some (e.writeBuffers (slot f))

theorem owed_mono {e e' : Endpoint} (h : e.calls <+: e'.calls) (index : Option ℕ) : e.owed index <+: e'.owed index := by
  cases index with
  | none => exact nil_prefix
  | some r => exact (h.drop r).flatMap _

structure Sound (e : Endpoint) : Prop where
  writeIndex : e.writeIndex = UInt32.ofNat e.written.length
  saves : e.Saves
  sized : ∀ b ∈ e.calls, Sized b
  readIndex : e.readIndex = UInt32.ofNat e.received
  readBuffer : e.readBuffer = []
  first : e.greeting 0 ≠ none
  used : e.greeting e.conn ≠ none
  greeting_le : ∀ c r, e.greeting c = some r → r ≤ e.received
  restoring : ∀ c, e.restoring = some c → e.closed = true ∧ c ≠ 0 ∧ e.greeting c = some e.received

end Endpoint

def preamble (c : ℕ) : Option ℕ → Bytes
  | none => []
  | some r => if c = 0 then [] else bigEndian 4 (UInt32.ofNat r).toNat

structure Sent (e : Endpoint) (index : Option ℕ) (c : ℕ) (body : Bytes) : Prop where
  owed : body <+: e.owed index
  idle : e.greeting c = none ∨ e.restoring = some c → body = []
  live : e.Writes c → ∃ p, index = some p ∧ p ≤ e.written.length ∧ body = frames (e.written.drop p)

structure Taken (e : Endpoint) (calls : List Bytes) (c taken : ℕ) : Prop where
  idle : e.greeting c = none ∨ e.restoring = some c → taken = 0
  live : e.Reads c → ∃ r, e.greeting c = some r ∧
    taken = (preamble c (some r)).length + (frames ((calls.take e.received).drop r)).length

structure Flows (x y : Endpoint) (w : ℕ → Wire) : Prop where
  received_le : y.received ≤ x.calls.length
  returned : y.returned = (x.calls.take y.received).flatten
  sent : ∀ c, ∃ body, (w c).sent = preamble c (x.greeting c) ++ body ∧ Sent x (y.greeting c) c body
  taken : ∀ c, Taken y x.calls c (w c).taken

theorem available_prefix (w : Wire) : w.available <+: w.sent.drop w.taken := ( take_prefix _ _).drop _

section

variable {x y x' y' : Endpoint} {w : ℕ → Wire}

theorem Flows.of_writer (h : Flows x y w) (hcalls : x.calls <+: x'.calls) (hwritten : x'.written = x.written)
    (hgreeting : x'.greeting = x.greeting) (hrestoring : ∀ c, x'.restoring = some c → x.restoring = some c)
    (hlive : ∀ c, x'.Writes c → x.Writes c) : Flows x' y w := by
  have htake : x'.calls.take y.received = x.calls.take y.received :=
    (take_eq_take_of_isPrefix hcalls h.received_le).symm
  refine ⟨h.received_le.trans hcalls.length_le, by rw [htake]; exact h.returned, fun c => ?_, fun c => ⟨(h.taken c).idle, ?_⟩⟩
  · obtain ⟨body, hsent, hbody⟩ := h.sent c
    refine ⟨body, by rw [hgreeting]; exact hsent, ⟨hbody.owed.trans (Endpoint.owed_mono hcalls _), ?_, ?_⟩⟩
    · intro hidle
      rw [hgreeting] at hidle
      exact hbody.idle (hidle.imp_right (hrestoring c))
    · intro hwrites
      rw [hwritten]
      exact hbody.live (hlive c hwrites)
  · rw [htake]
    exact (h.taken c).live

variable {c : ℕ}

section

variable (h : Flows x y w)
include h

theorem Flows.send {extra : Bytes} (hcalls : x'.calls = x.calls)
    (hgreeting : x'.greeting = x.greeting) (hrestoring : ∀ d, x'.restoring = some d → x.restoring = some d)
    (hlive : ∀ d, d ≠ c → ¬ x'.Writes d)
    (hextra : ∀ body, Sent x (y.greeting c) c body → Sent x' (y.greeting c) c (body ++ extra)) :
    Flows x' y (update w c ((w c).write extra)) := by
  refine ⟨by rw [hcalls]; exact h.received_le, by rw [hcalls]; exact h.returned, fun d => ?_, fun d => ?_⟩
  · obtain ⟨body, hsent, hbody⟩ := h.sent d
    rw [hgreeting]
    rcases eq_or_ne d c with rfl | hd
    · refine ⟨body ++ extra, ?_, hextra body hbody⟩
      rw [update_self, write_sent, hsent, append_assoc]
    · rw [update_of_ne hd]
      refine ⟨body, hsent, ⟨?_, ?_, fun hwrites => absurd hwrites (hlive d hd)⟩⟩
      · exact hbody.owed.trans (Endpoint.owed_mono (by rw [hcalls]) _)
      · intro hidle
        rw [hgreeting] at hidle
        exact hbody.idle (hidle.imp_right (hrestoring d))
  · rw [hcalls]
    rw [update_write_taken]
    exact h.taken d

theorem Flows.of_reader (hreceived : y'.received = y.received) (hreturned : y'.returned = y.returned)
    (hgreeting : y'.greeting = y.greeting) (hrestoring : ∀ c, y'.restoring = some c → y.restoring = some c)
    (hlive : ∀ c, y'.Reads c → y.Reads c) : Flows x y' w := by
  refine ⟨by rw [hreceived]; exact h.received_le, by rw [hreturned, hreceived]; exact h.returned,
    by rw [hgreeting]; exact h.sent, fun c => ⟨?_, ?_⟩⟩
  · intro hidle
    rw [hgreeting] at hidle
    exact (h.taken c).idle (hidle.imp_right (hrestoring c))
  · intro hreads
    rw [hgreeting, hreceived]
    exact (h.taken c).live (hlive c hreads)

theorem Flows.of_wires {w' : ℕ → Wire} (hsent : ∀ c, (w' c).sent = (w c).sent)
    (htaken : ∀ c, (w' c).taken = (w c).taken) : Flows x y w' :=
  ⟨h.received_le, h.returned, fun c => by rw [hsent]; exact h.sent c, fun c => by rw [htaken]; exact h.taken c⟩

theorem Flows.available (hy : y.Sound) (hreads : y.Reads c) :
    (w c).available <+: frames (x.calls.drop y.received) := by
  obtain ⟨r, hr, htaken⟩ := (h.taken c).live hreads
  obtain ⟨body, hsent, hbody⟩ := h.sent c
  have howed := hbody.owed
  rw [hr, Endpoint.owed, frames_drop (hy.greeting_le c r hr) h.received_le] at howed
  have hinit := available_prefix (w c)
  rw [hsent, htaken] at hinit
  by_cases hx : x.greeting c = none
  · -- the writer has not used the connection
    rw [hbody.idle (.inl hx), hx] at hinit
    have hnil : (w c).available = [] := prefix_nil.mp (by simpa [preamble] using hinit)
    rw [hnil]
    exact nil_prefix
  · have hlength : (preamble c (x.greeting c)).length = (preamble c (some r)).length := by
      obtain ⟨r', hr'⟩ := ne_none_iff_exists'.mp hx
      rw [hr']
      simp only [preamble]
      split_ifs <;> simp
    rw [← hlength, drop_append, drop_of_length_le (Nat.le_add_right _ _), nil_append,
      Nat.add_sub_cancel_left] at hinit
    have hdrop := howed.drop (frames ((x.calls.take y.received).drop r)).length
    rw [drop_left] at hdrop
    exact hinit.trans hdrop

theorem Flows.receive (hy : y.Sound) {b : Bytes} {rest : List Bytes} (hreads : y.Reads c)
    (hnext : x.calls.drop y.received = b :: rest) (hreceived : y'.received = y.received + 1)
    (hreturned : y'.returned = y.returned ++ b) (hgreeting : y'.greeting = y.greeting)
    (hrestoring : y'.restoring = y.restoring) (hconn : y'.conn = y.conn) :
    Flows x y' (update w c ((w c).read (2 + b.length))) := by
  have hlt : y.received < x.calls.length := by
    have := congrArg length hnext
    rw [length_drop, length_cons] at this
    omega
  have hget : x.calls[y.received] = b := by
    rw [drop_eq_getElem_cons hlt] at hnext
    exact (cons.inj hnext).1
  have htake : x.calls.take (y.received + 1) = x.calls.take y.received ++ [b] := by
    rw [take_succ_eq_append_getElem hlt, hget]
  refine ⟨by omega, ?_, fun d => ?_, fun d => ?_⟩
  · rw [hreturned, hreceived, htake, flatten_append, h.returned, flatten_singleton]
  · rw [hgreeting]
    rw [update_read_sent]
    exact h.sent d
  · rcases eq_or_ne d c with rfl | hd
    · obtain ⟨r, hr, htaken⟩ := (h.taken d).live hreads
      refine ⟨fun hidle => ?_, fun _ => ⟨r, by rw [hgreeting]; exact hr, ?_⟩⟩
      · -- the connection in use is neither new nor being restored
        rw [hgreeting, hrestoring, hr] at hidle
        exact absurd hreads (Endpoint.not_reads (hy.restoring d (hidle.resolve_left nofun)).1 d)
      · have hle := hy.greeting_le d r hr
        rw [update_self, read_taken, hreceived, htake,
          drop_append_of_le_length (by rw [length_take]; omega), frames_append, frames_singleton,
          length_append, frame_length]
        omega
    · rw [update_of_ne hd]
      refine ⟨fun hidle => (h.taken d).idle (by rwa [hgreeting, hrestoring] at hidle), fun hlive => ?_⟩
      exact absurd ((hreads.1.symm.trans hconn.symm).trans hlive.1).symm hd

theorem Flows.greet_writer (hx : x.Sound) (hc : x.greeting c = none)
    (hcalls : x'.calls = x.calls) (hgreeting : x'.greeting = update x.greeting c (some x.received))
    (hrestoring : x'.restoring = some c) (hclosed : x'.closed = true) :
    Flows x' y (update w c ((w c).write (bigEndian 4 x.readIndex.toNat))) := by
  have hzero : c ≠ 0 := fun hzero => hx.first (hzero ▸ hc)
  refine ⟨by rw [hcalls]; exact h.received_le, by rw [hcalls]; exact h.returned, fun d => ?_, fun d => ?_⟩
  · obtain ⟨body, hsent, hbody⟩ := h.sent d
    have hlive := Endpoint.not_writes hclosed d
    have howed := hbody.owed.trans (Endpoint.owed_mono (by rw [hcalls]) _)
    rw [hgreeting]
    rcases eq_or_ne d c with rfl | hd
    · obtain rfl := hbody.idle (.inl hc)
      refine ⟨[], ?_, ⟨howed, fun _ => rfl, fun hwrites => absurd hwrites hlive⟩⟩
      rw [update_self, update_self, write_sent, hsent, hc, preamble, preamble, if_neg hzero,
        hx.readIndex, append_nil, append_nil, nil_append]
    · rw [update_of_ne hd, update_of_ne hd]
      refine ⟨body, hsent, ⟨howed, fun hidle => ?_, fun hwrites => absurd hwrites hlive⟩⟩
      rw [hgreeting, update_of_ne hd, hrestoring] at hidle
      rcases hidle with hnone | hsame
      · exact hbody.idle (.inl hnone)
      · exact absurd (some.inj hsame).symm hd
  · rw [hcalls]
    rw [update_write_taken]
    exact h.taken d

theorem Flows.greet_reader (hc : y.greeting c = none) (hreceived : y'.received = y.received)
    (hreturned : y'.returned = y.returned) (hgreeting : y'.greeting = update y.greeting c (some y.received))
    (hrestoring : y'.restoring = some c) (hclosed : y'.closed = true) : Flows x y' w := by
  refine ⟨by rw [hreceived]; exact h.received_le, by rw [hreturned, hreceived]; exact h.returned, fun d => ?_,
    fun d => ⟨fun hidle => ?_, fun hreads => ?_⟩⟩
  · obtain ⟨body, hsent, hbody⟩ := h.sent d
    refine ⟨body, hsent, ?_⟩
    rw [hgreeting]
    rcases eq_or_ne d c with rfl | hd
    · -- nothing was sent to an endpoint that had not asked
      have howed := hbody.owed
      rw [hc, Endpoint.owed, prefix_nil] at howed
      subst howed
      refine ⟨ nil_prefix, fun _ => rfl, fun hwrites => ?_⟩
      obtain ⟨p, hp, -⟩ := hbody.live hwrites
      rw [hc] at hp
      cases hp
    · rw [update_of_ne hd]
      exact hbody
  · rw [hgreeting, hrestoring] at hidle
    rcases eq_or_ne d c with rfl | hd
    · exact (h.taken d).idle (.inl hc)
    · rw [update_of_ne hd] at hidle
      rcases hidle with hnone | hsame
      · exact (h.taken d).idle (.inl hnone)
      · exact absurd (some.inj hsame).symm hd
  · exact absurd hreads (Endpoint.not_reads hclosed d)

theorem Flows.adopt_reader (hy : y.Sound) (hc : y.restoring = some c)
    (hreceived : y'.received = y.received) (hreturned : y'.returned = y.returned) (hgreeting : y'.greeting = y.greeting)
    (hrestoring : y'.restoring = none) (hlive : ∀ d, d ≠ c → ¬ y'.Reads d) :
    Flows x y' (update w c ((w c).read 4)) := by
  obtain ⟨-, hzero, hasked⟩ := hy.restoring c hc
  refine ⟨by rw [hreceived]; exact h.received_le, by rw [hreturned, hreceived]; exact h.returned, fun d => ?_, fun d => ?_⟩
  · rw [hgreeting]
    rw [update_read_sent]
    exact h.sent d
  · rcases eq_or_ne d c with rfl | hd
    · refine ⟨fun hidle => ?_, fun _ => ⟨y.received, by rw [hgreeting]; exact hasked, ?_⟩⟩
      · rw [hgreeting, hrestoring, hasked] at hidle
        simp at hidle
      · have hnone : (x.calls.take y.received).drop y.received = [] := drop_eq_nil_of_le (length_take_le _ _)
        rw [update_self, read_taken, (h.taken d).idle (.inr hc), hreceived, hnone, preamble, if_neg hzero,
          bigEndian_length, frames_nil, length_nil]
    · rw [update_of_ne hd]
      refine ⟨fun hidle => (h.taken d).idle ?_, fun hreads => absurd hreads (hlive d hd)⟩
      rw [hgreeting, hrestoring] at hidle
      exact .inl (hidle.resolve_right nofun)

end

end

structure Joined (x : Ends) (y : Endpoint) : Prop where
  me : x.me.Sound
  other : y.Sound
  out : Flows x.me y x.out
  inn : Flows y x.me x.inn

def Endpoint.replays (e : Endpoint) (index : UInt32) : Bool :=
  index ≤ e.writeIndex || (e.writeIndex - index).toNat ≤ 6 || bufferSize < (e.writeIndex - index).toNat

def Endpoint.reaches (e : Endpoint) : Option ℕ → Bool
  | none => true
  | some r => e.written.length < r + 2 ^ 32

def Ends.careful (x : Ends) (y : Endpoint) : Act → Bool
  | .write b => b.length < 2 ^ 16 && !x.me.gaveUp
  | .readOk size => ofBigEndian (x.incoming.take 2) ≤ size
  | .readFail j => j = 0
  | .adopt | .adoptFail _ =>
    match x.me.restoring with
    | none => true
    | some c => (x.index c).all x.me.replays && x.me.reaches (y.greeting c)
  | _ => true

namespace Joined

variable {x x' : Ends} {y e : Endpoint} {b : Bytes} {c : ℕ}

theorem saves_saved (h : x.me.Sound) (b : Bytes) : (x.saved b).Saves := by
  have hslot : x.me.writeIndex.toNat % bufferSize = slot x.me.written.length := by rw [h.writeIndex, slot_eq]
  intro f hf hlast
  simp only [saved, length_append, length_singleton] at hf hlast
  simp only [saved, hslot]
  rcases eq_or_ne f x.me.written.length with rfl | hne
  · rw [getElem?_concat_length, update_self]
  · have hlt : f < x.me.written.length := by omega
    rw [getElem?_append_left hlt, update_of_ne (hlast _ hlt (by omega)).symm]
    exact h.saves f hlt fun g hfg hg => hlast g hfg (by omega)

theorem calls_saved (hcall : x.me.call = some b) : (x.saved b).calls = x.me.calls := by
  simp [Endpoint.calls, saved, hcall]

theorem owed_live {p : ℕ} (hcall : e.call = some b) (hp : p ≤ e.written.length) :
    e.owed (some p) = frames (e.written.drop p) ++ frame b := by
  rw [Endpoint.owed, Endpoint.calls, hcall, drop_append_of_le_length hp, frames_append]
  exact congrArg _ (frames_singleton b)

theorem replay_eq (he : e.Sound) {r : ℕ} {buffers : List Bytes} (hr : r ≤ e.calls.length)
    (hreaches : e.written.length < r + 2 ^ 32) (hreplays : e.replays (UInt32.ofNat r) = true)
    (h : replay e.writeBuffers e.writeIndex bufferSize (UInt32.ofNat r) = some buffers) :
    r ≤ e.written.length ∧ buffers = e.written.drop r := by
  obtain ⟨d, hd, hindex, rfl⟩ := replay_some h
  have hcalls : e.calls.length ≤ e.written.length + 1 := by
    rw [Endpoint.calls, length_append]
    have : e.call.toList.length ≤ 1 := by cases e.call <;> simp
    omega
  have hmod : e.written.length % 2 ^ 32 = (r + d) % 2 ^ 32 := by
    rw [he.writeIndex] at hindex
    simpa only [UInt32.toNat_ofNat'] using congrArg UInt32.toNat hindex
  have hlength : e.written.length = r + d := by
    have : bufferSize = 10 := rfl
    omega
  have hplaces : r % 2 ^ 32 ≤ (r + d) % 2 ^ 32 ∨ d ≤ 6 := by
    have hdistance : (e.writeIndex - UInt32.ofNat r).toNat = d := by
      rw [hindex, UInt32.toNat_sub, UInt32.toNat_ofNat', UInt32.toNat_ofNat']
      have : bufferSize = 10 := rfl
      omega
    rw [Endpoint.replays, hdistance, Bool.or_eq_true, Bool.or_eq_true, decide_eq_true_iff, decide_eq_true_iff,
      decide_eq_true_iff, UInt32.le_iff_toNat_le, hindex, UInt32.toNat_ofNat', UInt32.toNat_ofNat'] at hreplays
    omega
  refine ⟨by omega, ext_getElem? fun i => ?_⟩
  rw [getElem?_drop, getElem?_map]
  by_cases hi : i < d
  · have hsaved := he.saves (r + i) (by omega) fun g hfg hg => slot_ne hd hplaces (by omega) hfg (by omega)
    rw [getElem?_range' hi, hsaved, map_some, Nat.one_mul]
  · rw [getElem?_eq_none (by rw [length_range']; omega), getElem?_eq_none (by omega), map_none]

variable (h : Joined x y)

include h

theorem call (hb : Sized b) (hcall : x.me.call = none) :
    Joined (x.set { x.me with call := some b, gaveUp := false }) y := by
  have hcalls : x.me.calls <+: ({ x.me with call := some b, gaveUp := false } : Endpoint).calls := by
    rw [Endpoint.calls, hcall, toList_none, append_nil]
    exact prefix_append _ _
  refine ⟨{ h.me with sized := ?_ }, h.other, h.out.of_writer hcalls rfl rfl (fun _ => id) (fun _ => id),
    h.inn.of_reader rfl rfl rfl (fun _ => id) (fun _ => id)⟩
  intro b' hb'
  rcases mem_append.mp hb' with hold | hnew
  · exact h.me.sized b' (mem_append_left _ hold)
  · obtain rfl := mem_singleton.mp hnew
    exact hb

theorem giveUp : Joined (x.set { x.me with gaveUp := true }) y :=
  ⟨{ h.me with }, h.other, h.out.of_writer prefix_rfl rfl rfl (fun _ => id) (fun _ => id),
    h.inn.of_reader rfl rfl rfl (fun _ => id) (fun _ => id)⟩

theorem abandon : Joined (x.set { x.me with restoring := none }) y :=
  ⟨{ h.me with restoring := nofun }, h.other,
    h.out.of_writer prefix_rfl rfl rfl (fun _ hc => nomatch hc) (fun _ => id),
    h.inn.of_reader rfl rfl rfl (fun _ hc => nomatch hc) (fun _ => id)⟩

theorem readFail : Joined (x.set { x.me with readBuffer := [], reading := false }) y :=
  ⟨{ h.me with readBuffer := rfl }, h.other, h.out.of_writer prefix_rfl rfl rfl (fun _ => id) (fun _ => id),
    h.inn.of_reader rfl rfl rfl (fun _ => id) (fun _ hc => nomatch hc.2.1)⟩

theorem writeOk (hcall : x.me.call = some b) (hwrites : x.me.Writes x.me.conn) :
    Joined ((x.write x.me.conn (frame b)).set (x.saved b)) y := by
  refine ⟨{ h.me with writeIndex := ?_, saves := saves_saved h.me b, sized := ?_ }, h.other, ?_,
    h.inn.of_reader rfl rfl rfl (fun _ => id) (fun _ => id)⟩
  · simp only [Ends.set, Ends.saved, length_append, length_singleton, h.me.writeIndex]
    exact (UInt32.ofNat_add _ 1).symm
  · intro b' hb'
    simp only [Ends.set, calls_saved hcall] at hb'
    exact h.me.sized b' hb'
  · apply h.out.send (calls_saved hcall) rfl (fun _ => id) (fun d hd hlive => hd hlive.1.symm)
    intro body hbody
    obtain ⟨p, hp, hle, rfl⟩ := hbody.live hwrites
    have hdrop : frames (x.me.written.drop p) ++ frame b = frames ((x.me.written ++ [b]).drop p) := by
      rw [drop_append_of_le_length hle, frames_append, frames_singleton]
    refine ⟨?_, fun hidle => ?_, fun _ => ⟨p, hp, ?_, hdrop⟩⟩
    · rw [hp, Endpoint.owed, calls_saved hcall, ← owed_live hcall hle]
      exact prefix_rfl
    · rcases hidle with hnone | hrestoring
      · exact absurd hnone h.me.used
      · exact absurd hwrites (Endpoint.not_writes (h.me.restoring _ hrestoring).1 _)
    · rw [saved, length_append]
      omega

theorem writeFail {k : ℕ} (hcall : x.me.call = some b) (hidle : x.me.restoring = none)
    (hwriting : x.me.writing = true) (hclosed : x.me.closed = true → k = 0) :
    Joined ((x.write x.me.conn ((frame b).take k)).set { x.me with writing := false }) y := by
  refine ⟨{ h.me with }, h.other, ?_, h.inn.of_reader rfl rfl rfl (fun _ => id) (fun _ => id)⟩
  refine h.out.send rfl rfl (fun _ => id) (fun d _ hlive => nomatch hlive.2.1) ?_
  intro body hbody
  refine ⟨?_, fun hnew => ?_, fun hlive => nomatch hlive.2.1⟩
  · by_cases hshut : x.me.closed = true
    · rw [hclosed hshut, take_zero, append_nil]
      exact hbody.owed
    · obtain ⟨p, hp, hle, rfl⟩ := hbody.live ⟨rfl, hwriting, by simpa using hshut⟩
      have howed := owed_live hcall hle
      rw [hp]
      change _ <+: x.me.owed (some p)
      rw [howed]
      exact (prefix_append_right_inj _).mpr ( take_prefix k _)
  · rcases hnew with hnone | hrestoring
    · exact absurd hnone h.me.used
    · exact nomatch hidle.symm.trans hrestoring

theorem readOk {rest : List Bytes} {size : ℕ} (hreads : x.me.Reads x.me.conn)
    (hnext : y.calls.drop x.me.received = b :: rest) (hsize : b.length ≤ size) :
    Joined ((x.read x.me.conn (2 + b.length)).set
      (({ x.me with readBuffer := b, received := x.me.received + 1 } : Endpoint).take size)) y := by
  have htake : b.take size = b := take_of_length_le hsize
  have hdrop : b.drop size = [] := drop_eq_nil_of_le hsize
  refine ⟨{ h.me with readIndex := ?_, readBuffer := hdrop, greeting_le := ?_, restoring := ?_ }, h.other,
    h.out.of_writer prefix_rfl rfl rfl (fun _ => id) (fun _ => id),
    h.inn.receive h.me hreads hnext rfl ?_ rfl rfl rfl⟩
  · simp only [h.me.readIndex]
    exact (UInt32.ofNat_add _ 1).symm
  · intro c r hr
    exact (h.me.greeting_le c r hr).trans (Nat.le_succ _)
  · exact fun c hc => absurd hreads (Endpoint.not_reads (h.me.restoring c hc).1 _)
  · simp only [Ends.set, Endpoint.take, htake]

theorem restore (hc : x.me.greeting c = none) : Joined (x.restore c) y := by
  have hzero : 0 ≠ c := fun hzero => h.me.first (hzero ▸ hc)
  have hconn : x.me.conn ≠ c := fun hconn => h.me.used (hconn ▸ hc)
  refine ⟨{ h.me with first := ?_, used := ?_, greeting_le := ?_, restoring := ?_ }, h.other,
    h.out.greet_writer h.me hc rfl rfl rfl rfl, h.inn.greet_reader hc rfl rfl rfl rfl rfl⟩
  · simp only [Ends.restore, Ends.set]
    rw [update_of_ne hzero]
    exact h.me.first
  · simp only [Ends.restore, Ends.set]
    rw [update_of_ne hconn]
    exact h.me.used
  · intro d r hr
    simp only [Ends.restore, Ends.set] at hr ⊢
    rcases eq_or_ne d c with rfl | hd
    · rw [update_self] at hr
      exact (some.inj hr).ge
    · rw [update_of_ne hd] at hr
      exact h.me.greeting_le d r hr
  · intro d hd
    cases hd
    refine ⟨rfl, hzero.symm, ?_⟩
    simp only [Ends.restore, Ends.set, update_self]

theorem index_eq {index : UInt32} (hc : x.me.restoring = some c) (hindex : x.index c = some index) :
    ∃ r, y.greeting c = some r ∧ index = UInt32.ofNat r := by
  obtain ⟨hlen, hindex⟩ := ite_none_left_eq_some.mp hindex
  cases hindex
  obtain ⟨-, hzero, -⟩ := h.me.restoring c hc
  obtain ⟨body, hsent, hbody⟩ := h.inn.sent c
  have hinit := available_prefix (x.inn c)
  rw [(h.inn.taken c).idle (.inr hc), drop_zero, hsent] at hinit
  cases hr : y.greeting c with
  | none =>
    rw [hbody.idle (.inl hr), hr, preamble, append_nil] at hinit
    have := hinit.length_le
    rw [length_nil] at this
    omega
  | some r =>
    refine ⟨r, rfl, ?_⟩
    rw [hr, preamble, if_neg hzero] at hinit
    rw [take_eq_take_of_isPrefix hinit (by omega), take_left' (bigEndian_length _ _), ofBigEndian_uint32,
      UInt32.ofNat_toNat]

theorem adopt {k : Option ℕ} (hc : x.me.restoring = some c)
    (hcareful : ((x.index c).all x.me.replays && x.me.reaches (y.greeting c)) = true) (ha : x.adopt c k = some x') :
    Joined x' y := by
  obtain ⟨index, hindex, ha⟩ := bind_eq_some_iff.mp ha
  obtain ⟨r, hr, rfl⟩ := h.index_eq hc hindex
  obtain ⟨hclosed, hzero, hasked⟩ := h.me.restoring c hc
  rw [hindex, all_some, hr, Endpoint.reaches, Bool.and_eq_true, decide_eq_true_iff] at hcareful
  have hwrites := Endpoint.not_writes hclosed
  have hreads := Endpoint.not_reads hclosed
  have hreplay_eq : ∀ buffers, replay x.me.writeBuffers x.me.writeIndex bufferSize (UInt32.ofNat r) = some buffers →
      r ≤ x.me.written.length ∧ buffers = x.me.written.drop r := fun buffers hreplay =>
    replay_eq h.me ((h.other.greeting_le c r hr).trans h.out.received_le) hcareful.2 hcareful.1 hreplay
  have howed : r ≤ x.me.written.length → frames (x.me.written.drop r) <+: x.me.owed (some r) := fun hle => by
    rw [Endpoint.owed, Endpoint.calls, drop_append_of_le_length hle, frames_append]
    exact prefix_append _ _
  have hused : ∀ {e : Endpoint}, e.greeting = x.me.greeting → e.restoring = none →
      ¬ (e.greeting c = none ∨ e.restoring = some c) := by
    intro e hgreeting hrestoring
    rw [hgreeting, hrestoring, hasked]
    simp
  split at ha
  next =>
    -- the session is broken
    cases ha
    exact ⟨{ h.me with restoring := nofun }, h.other,
      h.out.of_writer prefix_rfl rfl rfl (fun _ hc => nomatch hc) (fun _ => id),
      h.inn.adopt_reader h.me hc rfl rfl rfl rfl (fun d _ => hreads d)⟩
  next => cases ha
  next buffers hreplay _ =>
    obtain ⟨hle, rfl⟩ := hreplay_eq buffers hreplay
    cases ha
    refine ⟨{ h.me with used := ?_, restoring := nofun }, h.other, ?_,
      h.inn.adopt_reader h.me hc rfl rfl rfl rfl (fun d hd hlive => hd hlive.1.symm)⟩
    · exact fun hnone => nomatch hasked.symm.trans hnone
    · refine h.out.send rfl rfl (fun _ hc => nomatch hc) (fun d hd hlive => hd hlive.1.symm) ?_
      intro body hbody
      obtain rfl := hbody.idle (.inr hc)
      refine ⟨?_, fun hnew => absurd hnew (hused rfl rfl), fun _ => ⟨r, hr, hle, rfl⟩⟩
      rw [hr]
      exact howed hle
  next buffers k hreplay _ =>
    obtain ⟨hle, rfl⟩ := hreplay_eq buffers hreplay
    cases ha
    refine ⟨{ h.me with restoring := nofun }, h.other, ?_,
      h.inn.adopt_reader h.me hc rfl rfl rfl rfl (fun d _ => hreads d)⟩
    refine h.out.send rfl rfl (fun _ hc => nomatch hc) (fun d _ => hwrites d) ?_
    intro body hbody
    obtain rfl := hbody.idle (.inr hc)
    refine ⟨?_, fun hnew => absurd hnew (hused rfl rfl), fun hlive => absurd hlive (hwrites c)⟩
    rw [hr]
    exact ( take_prefix k _).trans (howed hle)

theorem act {a : Act} (hcareful : x.careful y a = true) (ha : x.act a = some x') : Joined x' y := by
  cases a with
  | write b =>
    obtain ⟨hnew, ha⟩ := ite_none_left_eq_some.mp ha
    cases ha
    rw [careful, Bool.and_eq_true, decide_eq_true_iff, Bool.not_eq_true'] at hcareful
    push Not at hnew
    refine h.call ⟨hnew.1, hcareful.1⟩ ?_
    by_contra hcall
    have := hnew.2 (isSome_iff_ne_none.mpr hcall)
    rw [hcareful.2] at this
    cases this
  | writeOk =>
    simp only [Ends.act] at ha
    split at ha
    · cases ha
    next b hcall =>
      obtain ⟨hready, ha⟩ := ite_none_left_eq_some.mp ha
      cases ha
      push Not at hready
      exact h.writeOk hcall ⟨rfl, hready.2.2.1, by simpa using hready.2.2.2⟩
  | writeFail k =>
    simp only [Ends.act] at ha
    split at ha
    · cases ha
    next b hcall =>
      obtain ⟨hready, ha⟩ := ite_none_left_eq_some.mp ha
      cases ha
      push Not at hready
      exact h.writeFail hcall (by simpa using hready.1) hready.2.2.1 fun hclosed => Nat.le_zero.mp (hready.2.2.2 hclosed)
  | giveUp =>
    obtain ⟨-, ha⟩ := ite_none_left_eq_some.mp ha
    cases ha
    exact h.giveUp
  | readOk size =>
    obtain ⟨hready, ha⟩ := ite_none_left_eq_some.mp ha
    push Not at hready
    rw [careful, decide_eq_true_iff] at hcareful
    rw [Ends.readOk, h.me.readBuffer, isEmpty_nil, if_neg nofun] at ha
    obtain ⟨hlen, ha⟩ := ite_none_left_eq_some.mp ha
    have hopen : x.me.closed = false := by
      by_contra hshut
      rw [incoming, if_pos (by simpa using hshut)] at hlen
      simp at hlen
    have hreads : x.me.Reads x.me.conn := ⟨rfl, hready.2, hopen⟩
    have hgot : x.incoming <+: frames (y.calls.drop x.me.received) := by
      rw [incoming, hopen, if_neg (by decide)]
      exact h.inn.available h.me hreads
    obtain ⟨b, rest, hnext, hb, hlength, hfull⟩ := frames_head hgot
      (fun b hb => h.other.sized b (mem_of_mem_drop hb)) (by omega)
    rw [hlength] at ha hcareful
    rw [if_neg (by simpa using hb.1)] at ha
    obtain ⟨hpayload, ha⟩ := ite_none_left_eq_some.mp ha
    cases ha
    rw [hfull (by omega)]
    exact h.readOk hreads hnext hcareful
  | readFail j =>
    obtain ⟨-, ha⟩ := ite_none_left_eq_some.mp ha
    rw [careful, decide_eq_true_iff] at hcareful
    subst hcareful
    obtain ⟨-, ha⟩ := ite_none_left_eq_some.mp ha
    cases ha
    exact h.readFail
  | restore c =>
    obtain ⟨hready, ha⟩ := ite_none_left_eq_some.mp ha
    cases ha
    push Not at hready
    exact h.restore (by simpa using hready.2)
  | adopt | adoptFail k =>
    obtain ⟨c, hc, ha⟩ := bind_eq_some_iff.mp ha
    rw [careful, hc] at hcareful
    exact h.adopt hc hcareful ha
  | abandon =>
    obtain ⟨-, ha⟩ := ite_none_left_eq_some.mp ha
    cases ha
    exact h.abandon

end Joined

namespace Link

def careful (l : Link) : Step → Bool
  | .act s a => (l.view s).careful (l.ends s.other) a
  | .cut _ _ _ => true

def Whole (l : Link) : Prop := ∀ s : Side, Joined (l.view s) (l.ends s.other)

theorem whole_start : start.Whole := by
  have hsound : Endpoint.start.Sound := by
    refine ⟨rfl, fun f hf => absurd hf (Nat.not_lt_zero f), fun b hb => absurd hb (by simp [Endpoint.calls, Endpoint.start]),
      rfl, rfl, by simp [Endpoint.start], by simp [Endpoint.start], fun c r hr => ?_, nofun⟩
    obtain ⟨-, hr⟩ := ite_none_right_eq_some.mp hr
    exact (some.inj hr).ge
  have hflows : Flows .start .start fun _ => ⟨[], none, 0⟩ := by
    refine ⟨le_rfl, rfl, fun c => ⟨[], ?_, ⟨ nil_prefix, fun _ => rfl, ?_⟩⟩, fun c => ⟨fun _ => rfl, ?_⟩⟩
    · by_cases hc : c = 0
      all_goals simp [Endpoint.start, preamble, hc]
    · rintro ⟨rfl, -⟩
      exact ⟨0, rfl, le_rfl, rfl⟩
    · rintro ⟨rfl, -⟩
      exact ⟨0, rfl, rfl⟩
  exact fun _ => ⟨hsound, hsound, hflows, hflows⟩

theorem other_ne (s : Side) : s.other ≠ s := by
  cases s <;> decide

theorem other_other (s : Side) : s.other.other = s := by
  cases s <;> rfl

theorem eq_or_other (s t : Side) : t = s ∨ t = s.other := by
  cases s <;> cases t <;> decide

theorem Whole.of_joined {l : Link} {s : Side} (h : Joined (l.view s) (l.ends s.other)) : l.Whole := by
  intro t
  obtain rfl | rfl := eq_or_other s t
  · exact h
  · rw [view, other_other]
    exact ⟨h.other, h.me, h.inn, h.out⟩

theorem whole_step {l l' : Link} {a : Step} (h : l.Whole) (hcareful : l.careful a = true) (ha : l.step a = some l') :
    l'.Whole := by
  cases a with
  | act s a =>
    obtain ⟨x, hx, rfl⟩ := map_eq_some_iff.mp ha
    apply Whole.of_joined
    have hjoined := (h s).act hcareful hx
    have hview : (l.put s x).view s = x := by
      simp only [view, put, update_self, update_of_ne (other_ne s).symm]
    have hother : (l.put s x).ends s.other = l.ends s.other := update_of_ne (other_ne s) _ _
    rw [hview, hother]
    exact hjoined
  | cut s c k =>
    obtain ⟨-, ha⟩ := ite_none_left_eq_some.mp ha
    cases ha
    apply Whole.of_joined
    have hjoined := h s
    refine ⟨hjoined.me, hjoined.other, hjoined.out.of_wires (fun d => ?_) (fun d => ?_), hjoined.inn.of_wires (fun d => ?_)
      (fun d => ?_)⟩
    all_goals simp only [view, update_self, update_of_ne (other_ne s)]
    all_goals
      rcases eq_or_ne d c with rfl | hd
      · rw [update_self]
      · rw [update_of_ne hd]

theorem returned_prefix {acts : List Step} {l : Link} (h : Run step (careful · ·) start acts l) (s : Side) :
    (l.ends s).returned <+: (l.ends s.other).calls.flatten := by
  have hwhole : l.Whole := h.invariant whole_step whole_start
  have hreturned : (l.ends s).returned = _ := (hwhole s).inn.returned
  rw [hreturned]
  exact (List.take_prefix _ _).flatten

def reconnected : List Step :=
  [.act .client (.write [1, 2, 3]), .act .client .writeOk, .act .server (.readOk 3), .act .client (.write [4]),
    .act .client .writeOk, .cut .client 0 5, .act .client (.write [5, 6]), .act .client (.writeFail 1),
    .act .server (.readFail 0), .act .client (.restore 1), .act .server (.restore 1), .act .client .adopt,
    .act .client .writeOk, .act .server .adopt, .act .server (.readOk 1), .act .server (.readOk 2)]

theorem returned_prefix_reconnected :
    ∃ l, Run step (careful · ·) start reconnected l ∧ (l.ends .server).returned = [1, 2, 3, 4, 5, 6] ∧
      (l.ends .server).returned <+: (l.ends .client).calls.flatten := by
  refine (Run.exists_of_decideWhile ?_).imp fun l ⟨hrun, hl⟩ => ⟨hrun, hl, returned_prefix hrun .server⟩
  decide +kernel

def miscounted : List Step :=
  [.act .client (.write [1, 2, 3]), .act .client .writeOk, .act .server (.readOk 1), .act .server (.readOk 1),
    .act .server (.readOk 1), .cut .client 0 5, .act .client (.write [4]), .act .client .writeOk,
    .act .client (.write [5]), .act .client .writeOk, .act .client (.write [6]), .act .client .writeOk,
    .act .server (.readFail 0), .act .client (.write [7]), .act .client (.writeFail 0), .act .client (.restore 1),
    .act .server (.restore 1), .act .client .adopt, .act .server .adopt, .act .server (.readOk 1)]

def repeated : List Step :=
  [.act .client (.write [1, 2]), .act .client .writeOk, .cut .client 0 3, .act .server (.readFail 1),
    .act .client (.write [3]), .act .client (.writeFail 0), .act .client (.restore 1), .act .server (.restore 1),
    .act .client .adopt, .act .server .adopt, .act .server (.readOk 2), .act .server (.readOk 2)]

theorem returned_not_prefix : (∃ l, Run step anyStep start miscounted l ∧ (l.ends .server).returned = [1, 2, 3, 6] ∧
      ¬ (l.ends .server).returned <+: (l.ends .client).calls.flatten) ∧
    (∃ l, Run step anyStep start repeated l ∧ (l.ends .server).returned = [1, 1, 2] ∧
      ¬ (l.ends .server).returned <+: (l.ends .client).calls.flatten) := by
  refine ⟨Run.exists_of_decide ?_, Run.exists_of_decide ?_⟩
  · decide +kernel
  · decide +kernel

end Link

end Hydracore.Failover.Stream
