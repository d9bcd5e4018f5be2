import Hydracore.Bond.Agreement
import Hydracore.Bond.Stream
import Hydracore.Formats.Pieces

namespace Hydracore.Bond

open Formats Systems List Pipe Function Option

def Framed (b : Bytes) : Prop := b ≠ [] ∧ b.length < 2 ^ 16

def chunks (ratios : List UInt8) (b : Bytes) : List Bytes :=
  ((splitByRatios b.length ratios).map Int.toNat).splitLengths b

def wire (ratios : List UInt8) (b : Bytes) (i : ℕ) : Bytes :=
  (if i = 0 then frameHeader b else []) ++ stripes 0 (chunks ratios b) i

def Writer.Sends (ratios : List UInt8) (unsent : ℕ → Bytes) : Writer → Prop
  | returned _ failed => failed = false ∧ unsent = fun _ => []
  | header b _ => Framed b ∧ unsent = wire ratios b
  | sending data total conn chunk rest => chunk ≠ [] ∧ ∃ pieces spare, rest = lengths pieces ∧
    data.drop total = chunk ++ pieces.flatten ++ spare ∧ unsent = stripes conn (chunk :: pieces)
  | panicked => False

def Reader.Wants (got : Bytes) (left : ℕ → Bytes) (payload : Bytes) : Reader → Prop
  | idle => got = [] ∧ left = (fun _ => []) ∧ payload = []
  | header _ g => got = g ∧ g.length < 2 ∧ left = (fun _ => []) ∧ payload = []
  | copying _ conn wanted rest => got = [] ∧ 0 < wanted ∧ ∃ chunk pieces, chunk.length = wanted ∧ rest = lengths pieces ∧
    left = stripes conn (chunk :: pieces) ∧ payload = chunk ++ pieces.flatten

section

variable {ratios : List UInt8} (hsum : (ratios.map UInt8.toNat).sum = 100)
include hsum

theorem ratios_ne_nil : ratios ≠ [] := by
  rintro rfl
  cases hsum

theorem splitByRatios_nonneg (number : ℕ) : ∀ part ∈ splitByRatios number ratios, 0 ≤ part := by
  apply splitFrom_nonneg (Int.natCast_nonneg number)
  rw [hsum]
  omega

theorem splitByRatios_sum (number : ℕ) : (splitByRatios number ratios).sum = number :=
  splitFrom_sum _ _ (ratios_ne_nil hsum)

theorem chunks_spec (b : Bytes) :
    lengths (chunks ratios b) = splitByRatios b.length ratios ∧ (chunks ratios b).flatten = b :=
  lengths_splitLengths (splitByRatios_nonneg hsum b.length) (splitByRatios_sum hsum b.length)

end

theorem frameHeader_length (b : Bytes) : (frameHeader b).length = 2 := bigEndian_length _ _

variable {b : Bytes}

theorem Framed.ofBigEndian (h : Framed b) : ofBigEndian (frameHeader b) = b.length := by
  rw [frameHeader, Nat.mod_eq_of_lt h.2]
  exact ofBigEndian_bigEndian h.2

variable {pieces : List Bytes}

theorem nextChunk_sends {ratios : List UInt8} {data spare : Bytes} {total : ℕ}
    (h : data.drop total = pieces.flatten ++ spare) (conn : ℕ) :
    (nextChunk data total conn (lengths pieces)).Sends ratios (stripes conn pieces) := by
  induction pieces generalizing conn with
  | nil => exact ⟨rfl, stripes_nil conn⟩
  | cons piece pieces ih =>
    rw [lengths, map_cons, nextChunk]
    split_ifs with hzero hout
    · obtain rfl : piece = [] := length_eq_zero_iff.mp (by omega)
      rw [stripes_nil_cons]
      exact ih h (conn + 1)
    · have := congrArg length h
      simp only [length_drop, flatten_cons, length_append] at this
      omega
    · have hpiece : (data.drop total).take (piece.length : ℤ).toNat = piece := by
        rw [h, Int.toNat_natCast, flatten_cons, append_assoc, take_left' rfl]
      rw [hpiece]
      refine ⟨fun hnil => hzero (by simp [hnil]), pieces, spare, rfl, ?_, rfl⟩
      rw [h, flatten_cons]

namespace Pipe

variable {p p' : Pipe}

theorem deliver_spec {size : ℕ} (h : p.readBuffer ≠ []) : p.deliver size = { p with
      reader := .idle
      received := p.received ++ p.readBuffer.take size
      readBuffer := p.readBuffer.drop size } := by
  rw [deliver, if_neg]
  simpa using h

theorem nextCopy_spec {size conn : ℕ} (h : p.readBuffer ++ pieces.flatten ≠ [])
    (hp : p.nextCopy size conn (lengths pieces) = p') :
    p'.streams = p.streams ∧ p'.writer = p.writer ∧ p'.written = p.written ∧ p'.eof = p.eof ∧
      (∀ size got, p'.reader ≠ .header size got) ∧ ∃ payload, p'.reader.Wants [] (stripes conn pieces) payload ∧
        p'.received ++ p'.readBuffer ++ payload = p.received ++ p.readBuffer ++ pieces.flatten := by
  induction pieces generalizing conn with
  | nil =>
    rw [flatten_nil, append_nil] at h
    obtain rfl := hp
    rw [lengths, map_nil, nextCopy, deliver_spec h]
    refine ⟨rfl, rfl, rfl, rfl, nofun, [], ⟨rfl, stripes_nil conn, rfl⟩, ?_⟩
    simp
  | cons piece pieces ih =>
    rw [lengths, map_cons, nextCopy] at hp
    split_ifs at hp with hzero
    · obtain rfl : piece = [] := length_eq_zero_iff.mp (by omega)
      rw [stripes_nil_cons]
      exact ih h hp
    · subst hp
      refine ⟨rfl, rfl, rfl, rfl, nofun, piece ++ pieces.flatten, ⟨rfl, by omega, piece, pieces, ?_, rfl, rfl, rfl⟩, ?_⟩
      · simp
      · simp

def careful (p : Pipe) : Act → Bool
  | .write b _ => b.length ≠ 0 && b.length < 2 ^ 16
  | .push n =>
    match p.writer with
    | .header _ _ => n = 2
    | .sending _ _ _ _ _ => n ≠ 0
    | _ => true
  | _ => true

structure Intact (ratios : List UInt8) (p : Pipe) (frames : List Bytes) (unsent left : ℕ → Bytes)
    (got payload : Bytes) : Prop where
  sends : p.writer.Sends ratios unsent
  wants : p.reader.Wants got left payload
  framed : ∀ b ∈ frames, Framed b
  carried : ∀ i, (if i = 0 then got else []) ++ p.streams i ++ unsent i = left i ++ frames.flatMap (wire ratios · i)
  data : p.written = p.received ++ p.readBuffer ++ payload ++ frames.flatten
  fresh : ∀ size g, p.reader = .header size g → p.readBuffer = []
  eof : p.eof = false

def Sound (ratios : List UInt8) (p : Pipe) : Prop :=
  ∃ frames unsent left got payload, p.Intact ratios frames unsent left got payload

theorem Sound.start (ratios : List UInt8) : Sound ratios start :=
  ⟨[], fun _ => [], fun _ => [], [], [], ⟨rfl, rfl⟩, ⟨rfl, rfl, rfl⟩, nofun, fun i => by simp [Pipe.start], rfl, nofun, rfl⟩

section

variable {ratios : List UInt8} {frames : List Bytes} {unsent left : ℕ → Bytes} {got payload : Bytes}

section

variable (hp : p.Intact ratios frames unsent left got payload)
include hp

theorem Intact.write {n : ℕ} {failed : Bool}
    (hwriter : p.writer = .returned n failed) (hb : Framed b) (spare : Bytes) :
    Sound ratios { p with writer := .header b spare, written := p.written ++ b } := by
  obtain ⟨_, rfl⟩ : failed = false ∧ unsent = fun _ => [] := by simpa [hwriter, Writer.Sends] using hp.sends
  refine ⟨frames ++ [b], wire ratios b, left, got, payload, ⟨hb, rfl⟩, hp.wants, ?_, fun i => ?_, ?_, hp.fresh, hp.eof⟩
  · intro other hother
    obtain hother | hother := mem_append.mp hother
    · exact hp.framed other hother
    · rwa [mem_singleton.mp hother]
  · have hcarried := hp.carried i
    rw [append_nil] at hcarried
    rw [hcarried, flatMap_append]
    simp
  · rw [hp.data]
    simp

theorem Intact.send {conn : ℕ} (unsent' : ℕ → Bytes)
    (hconn : unsent conn = b ++ unsent' conn) (hother : ∀ i, i ≠ conn → unsent i = unsent' i) {writer : Writer}
    (hsends : writer.Sends ratios unsent') : Sound ratios { p.send conn b with writer := writer } := by
  refine ⟨frames, unsent', left, got, payload, hsends, hp.wants, hp.framed, fun i => ?_, hp.data, hp.fresh, hp.eof⟩
  have hcarried := hp.carried i
  by_cases heq : i = conn
  · subst heq
    rw [hconn] at hcarried
    simpa [Pipe.send] using hcarried
  · rw [hother i heq] at hcarried
    simpa [Pipe.send, Function.update_of_ne heq] using hcarried

theorem Intact.push_header
    (hsum : (ratios.map UInt8.toNat).sum = 100) {b spare : Bytes} (hwriter : p.writer = .header b spare) :
    Sound ratios { p.send 0 ((frameHeader b).take 2) with
      writer := nextChunk (b ++ spare) 0 0 (splitByRatios b.length ratios) } := by
  obtain ⟨hb, rfl⟩ : Framed b ∧ unsent = wire ratios b := by simpa [hwriter, Writer.Sends] using hp.sends
  obtain ⟨hlengths, hflatten⟩ := chunks_spec hsum b
  rw [take_of_length_le (frameHeader_length b).le, ← hlengths]
  apply hp.send (stripes 0 (chunks ratios b))
  · rfl
  · intro i hi
    simp [wire, hi]
  · apply nextChunk_sends
    rw [hflatten, drop_zero]

theorem Intact.push_chunk {data chunk : Bytes} {total conn n : ℕ}
    {rest : List ℤ} (hwriter : p.writer = .sending data total conn chunk rest) (hle : n ≤ chunk.length) :
    Sound ratios { p.send conn (chunk.take n) with
      writer := if n = chunk.length then nextChunk data (total + n) (conn + 1) rest
        else .sending data (total + n) conn (chunk.drop n) rest } := by
  have hsends := hp.sends
  rw [hwriter] at hsends
  obtain ⟨hchunk, pieces, spare, rfl, hdata, rfl⟩ := hsends
  have hdrop : data.drop (total + n) = chunk.drop n ++ pieces.flatten ++ spare := by
    rw [← drop_drop, hdata, append_assoc, drop_append_of_le_length hle, append_assoc]
  apply hp.send (stripes conn (chunk.drop n :: pieces))
  · rw [stripes_cons_self, stripes_cons_self, take_append_drop]
  · intro i hi
    rw [stripes_cons_ne hi, stripes_cons_ne hi]
  · split_ifs with hall
    · have hnil : chunk.drop n = [] := drop_eq_nil_of_le hall.ge
      rw [hnil, nil_append] at hdrop
      rw [hnil, stripes_nil_cons]
      exact nextChunk_sends hdrop (conn + 1)
    · refine ⟨fun hnil => ?_, pieces, spare, rfl, hdrop, rfl⟩
      have := drop_eq_nil_iff.mp hnil
      omega

theorem Intact.read (hreader : p.reader = .idle) (size : ℕ) :
    Sound ratios (if p.readBuffer.isEmpty then { p with reader := .header size [] } else p.deliver size) := by
  have hwants := hp.wants
  rw [hreader] at hwants
  obtain ⟨rfl, rfl, rfl⟩ := hwants
  split_ifs with hempty
  · refine ⟨frames, unsent, fun _ => [], [], [], hp.sends, ⟨rfl, Nat.zero_lt_two, rfl, rfl⟩, hp.framed, hp.carried,
      hp.data, ?_, hp.eof⟩
    intro _ _ _
    exact List.isEmpty_iff.mp hempty
  · rw [deliver_spec (by simpa using hempty)]
    refine ⟨frames, unsent, fun _ => [], [], [], hp.sends, ⟨rfl, rfl, rfl⟩, hp.framed, hp.carried, ?_, nofun, hp.eof⟩
    rw [hp.data]
    simp

theorem Intact.nextCopy (frames' : List Bytes) {buffer : Bytes}
    {streams : ℕ → Bytes} {size conn : ℕ} (hframed : ∀ b ∈ frames', Framed b)
    (hsome : buffer ++ pieces.flatten ≠ [])
    (hcarried : ∀ i, streams i ++ unsent i = stripes conn pieces i ++ frames'.flatMap (wire ratios · i))
    (hdata : p.written = p.received ++ buffer ++ pieces.flatten ++ frames'.flatten) :
    Sound ratios (nextCopy { p with streams := streams, readBuffer := buffer } size conn (lengths pieces)) := by
  obtain ⟨hstreams, hwriter, hwritten, heof, hreader, payload', hwants, hpayload⟩ :=
    nextCopy_spec (p := { p with streams := streams, readBuffer := buffer }) hsome rfl
  refine ⟨frames', unsent, stripes conn pieces, [], payload', ?_, hwants, hframed, fun i => ?_, ?_, ?_, ?_⟩
  · rw [hwriter]
    exact hp.sends
  · rw [hstreams]
    simpa using hcarried i
  · rw [hwritten, hpayload]
    exact hdata
  · intro size g hheader
    exact absurd hheader (hreader size g)
  · rw [heof]
    exact hp.eof

theorem Intact.pull_header
    (hsum : (ratios.map UInt8.toNat).sum = 100) {size n : ℕ} {g : Bytes} (hreader : p.reader = .header size g)
    (hn : g.length + n ≤ 2) (hready : n ≤ (p.streams 0).length) :
    Sound ratios (if (g ++ (p.streams 0).take n).length = 2 then
        (p.take 0 n).nextCopy size 0 (splitByRatios (ofBigEndian (g ++ (p.streams 0).take n)) ratios)
      else { p.take 0 n with reader := .header size (g ++ (p.streams 0).take n) }) := by
  have hbuffer := hp.fresh size g hreader
  have hwants := hp.wants
  rw [hreader] at hwants
  obtain ⟨rfl, hshort, rfl, rfl⟩ := hwants
  have hzero : (got ++ (p.streams 0).take n) ++ ((p.streams 0).drop n ++ unsent 0) =
      frames.flatMap (wire ratios · 0) := by
    have hcarried := hp.carried 0
    rw [if_pos rfl, nil_append] at hcarried
    rw [← hcarried, append_assoc, ← append_assoc _ _ (unsent 0), take_append_drop, append_assoc]
  split_ifs with hall
  · cases frames with
    | nil =>
      have := congrArg length hzero
      simp only [length_append, flatMap_nil, length_nil] at this hall
      omega
    | cons b frames =>
      have hb := hp.framed b mem_cons_self
      obtain ⟨hlengths, hflatten⟩ := chunks_spec hsum b
      rw [flatMap_cons, wire, if_pos rfl, append_assoc (frameHeader b)] at hzero
      obtain ⟨hheader, hrest⟩ := append_inj hzero (hall.trans (frameHeader_length b).symm)
      rw [hheader, hb.ofBigEndian, ← hlengths]
      apply hp.nextCopy frames
      · exact fun other hother => hp.framed other (mem_cons_of_mem _ hother)
      · rw [hflatten, hbuffer]
        exact hb.1
      · intro i
        by_cases hi : i = 0
        · subst hi
          simpa using hrest
        · have := hp.carried i
          simpa [hi, wire] using this
      · rw [hflatten, hp.data]
        simp
  · refine ⟨frames, unsent, fun _ => [], got ++ (p.streams 0).take n, [], hp.sends, ⟨rfl, ?_, rfl, rfl⟩, hp.framed,
      fun i => ?_, hp.data, fun _ _ _ => hbuffer, hp.eof⟩
    · simp only [length_append, length_take] at hall ⊢
      omega
    · by_cases hi : i = 0
      · subst hi
        simp only [take, if_true, update_self, nil_append, ← hzero, append_assoc]
      · have := hp.carried i
        simpa [take, hi] using this

theorem Intact.pull_chunk {size conn wanted n : ℕ} {rest : List ℤ}
    (hreader : p.reader = .copying size conn wanted rest) (hn : n ≤ wanted) (hready : n ≤ (p.streams conn).length) :
    Sound ratios (if n = wanted then
        Pipe.nextCopy { p.take conn n with readBuffer := p.readBuffer ++ (p.streams conn).take n } size (conn + 1) rest
      else { p.take conn n with
        readBuffer := p.readBuffer ++ (p.streams conn).take n
        reader := .copying size conn (wanted - n) rest }) := by
  have hwants := hp.wants
  rw [hreader] at hwants
  obtain ⟨rfl, hpos, chunk, pieces, rfl, rfl, rfl, rfl⟩ := hwants
  have htake : (p.streams conn).take n = chunk.take n := by
    have hcarried := congrArg (List.take n) (hp.carried conn)
    rw [ite_self, List.nil_append, stripes_cons_self, List.take_append_of_le_length hready,
      List.take_append_of_le_length hn] at hcarried
    exact hcarried
  have hcarried (i : ℕ) : update p.streams conn ((p.streams conn).drop n) i ++ unsent i =
      stripes conn (chunk.drop n :: pieces) i ++ frames.flatMap (wire ratios · i) := by
    have hbefore := hp.carried i
    rw [ite_self, List.nil_append] at hbefore
    by_cases hi : i = conn
    · subst hi
      rw [stripes_cons_self] at hbefore ⊢
      have hdrop := congrArg (List.drop n) hbefore
      rw [List.drop_append_of_le_length hready, List.drop_append_of_le_length hn] at hdrop
      rwa [update_self]
    · rw [stripes_cons_ne hi] at hbefore ⊢
      rwa [update_of_ne hi]
  have hdata : p.written = p.received ++ (p.readBuffer ++ chunk.take n) ++ (chunk.drop n ++ pieces.flatten) ++
      frames.flatten := by
    rw [hp.data]
    simp only [List.append_assoc]
    rw [← List.append_assoc (chunk.take n), List.take_append_drop]
  rw [htake]
  split_ifs with hall
  · have hnil : chunk.drop n = [] := List.drop_eq_nil_of_le hall.ge
    rw [hnil, List.nil_append] at hdata
    refine hp.nextCopy frames hp.framed ?_ (fun i => ?_) hdata
    · intro hempty
      have := congrArg List.length hempty
      simp only [List.length_append, List.length_take, List.length_nil] at this
      omega
    · rw [← stripes_nil_cons, ← hnil]
      exact hcarried i
  · refine ⟨frames, unsent, stripes conn (chunk.drop n :: pieces), [], chunk.drop n ++ pieces.flatten, hp.sends,
      ⟨rfl, by omega, chunk.drop n, pieces, List.length_drop, rfl, rfl, rfl⟩, hp.framed, fun i => ?_, hdata, nofun,
      hp.eof⟩
    rw [ite_self, List.nil_append]
    exact hcarried i

end

end

variable {ratios : List UInt8}

theorem Sound.step (hsum : (ratios.map UInt8.toNat).sum = 100) (hp : p.Sound ratios) {a : Act}
    (hmet : p.careful a = true) (hstep : p.step ratios ratios a = some p') : p'.Sound ratios := by
  obtain ⟨frames, unsent, left, got, payload, hp⟩ := hp
  cases a with
  | write b spare =>
    cases hwriter : p.writer <;> simp only [Pipe.step, hwriter, reduceCtorEq, Option.some.injEq] at hstep
    obtain rfl := hstep
    simp only [careful, Bool.and_eq_true, decide_eq_true_eq] at hmet
    exact hp.write hwriter ⟨fun hnil => hmet.1 (by simp [hnil]), hmet.2⟩ spare
  | push n =>
    cases hwriter : p.writer <;> simp only [Pipe.step, push, hwriter, reduceCtorEq] at hstep
    · obtain rfl : n = 2 := by simpa [careful, hwriter] using hmet
      cases hstep
      exact hp.push_header hsum hwriter
    · have hn : n ≠ 0 := by simpa [careful, hwriter] using hmet
      obtain ⟨hle, hstep⟩ := ite_none_left_eq_some.mp hstep
      rw [if_neg hn] at hstep
      cases hstep
      exact hp.push_chunk hwriter (not_lt.mp hle)
  | read size =>
    cases hreader : p.reader <;> simp only [Pipe.step, hreader, reduceCtorEq, Option.some.injEq] at hstep
    obtain rfl := hstep
    exact hp.read hreader size
  | pull n =>
    cases hreader : p.reader <;> simp only [Pipe.step, pull, hreader, reduceCtorEq] at hstep
    · obtain ⟨hle, hstep⟩ := ite_none_left_eq_some.mp hstep
      rw [← apply_ite some] at hstep
      cases hstep
      exact hp.pull_header hsum hreader (by omega) (by omega)
    · obtain ⟨hle, hstep⟩ := ite_none_left_eq_some.mp hstep
      cases hstep
      exact hp.pull_chunk hreader (by omega) (by omega)

/-- What is read is the beginning of what was written, without an end of file, a failed write or a panic; once `Write`
has returned, `Read` does not block before it has got everything. -/
structure Exact (downloadRatios : List UInt8) (p : Pipe) : Prop where
  read : p.received <+: p.written
  eof : p.eof = false
  writer : p.writer ≠ .panicked ∧ ∀ n, p.writer ≠ .returned n true
  all : ∀ n, p.writer = .returned n false → p.reader = .idle → p.readBuffer = [] → (∀ i, p.streams i = []) →
    p.received = p.written
  ready : ∀ n, p.writer = .returned n false → p.reader ≠ .idle → p.received ≠ p.written →
    (p.pull downloadRatios 1).isSome = true

theorem frames_eq_nil {frames : List Bytes} (h : (frames.flatMap (wire ratios · 0)).length < 2) : frames = [] := by
  cases frames with
  | nil => rfl
  | cons b frames =>
    rw [flatMap_cons, wire, if_pos rfl, length_append, length_append, frameHeader_length] at h
    omega

theorem Intact.exact {frames : List Bytes} {unsent left : ℕ → Bytes} {got payload : Bytes}
    (hp : p.Intact ratios frames unsent left got payload) : p.Exact ratios where
  read := by
    rw [hp.data, append_assoc, append_assoc]
    exact prefix_append _ _
  eof := hp.eof
  writer := by
    have hsends := hp.sends
    refine ⟨fun hwriter => ?_, fun n hwriter => ?_⟩
    · rw [hwriter] at hsends
      exact hsends
    · rw [hwriter] at hsends
      cases hsends.1
  all n hwriter hreader hbuffer hstreams := by
    have hsends := hp.sends
    have hwants := hp.wants
    rw [hwriter] at hsends
    rw [hreader] at hwants
    obtain ⟨_, rfl⟩ := hsends
    obtain ⟨rfl, rfl, rfl⟩ := hwants
    have hcarried := hp.carried 0
    obtain rfl : frames = [] := frames_eq_nil (by rw [← nil_append (flatMap _ _), ← hcarried]; simp [hstreams])
    rw [hp.data, hbuffer]
    simp
  ready n hwriter hbusy hmore := by
    have hsends := hp.sends
    rw [hwriter] at hsends
    obtain ⟨_, rfl⟩ := hsends
    have hwants := hp.wants
    cases hreader : p.reader with
    | idle => exact absurd hreader hbusy
    | header size g =>
      rw [hreader] at hwants
      obtain ⟨rfl, hshort, rfl, rfl⟩ := hwants
      have hready : p.streams 0 ≠ [] := by
        intro hnone
        have hcarried := hp.carried 0
        rw [if_pos rfl, hnone, append_nil, append_nil, nil_append] at hcarried
        obtain rfl : frames = [] := frames_eq_nil (hcarried ▸ hshort)
        refine hmore ?_
        rw [hp.data, hp.fresh size got hreader]
        simp
      have hpos := length_pos_iff.mpr hready
      simp only [pull, hreader]
      rw [if_neg (by omega)]
      split_ifs <;> rfl
    | copying size conn wanted rest =>
      rw [hreader] at hwants
      obtain ⟨rfl, hpos, chunk, pieces, rfl, rfl, rfl, rfl⟩ := hwants
      have hcarried := congrArg length (hp.carried conn)
      rw [ite_self, nil_append, append_nil, stripes_cons_self, length_append] at hcarried
      simp only [pull, hreader]
      rw [if_neg (by omega)]
      rfl

end Pipe

section

variable {ω κ α : Type}

theorem bond_roundTrip {create : ω → Option κ} {options : List (BondOutbound ω)} {outbound : Outbound κ}
    (hnew : newOutbound create options = .ok outbound) (hfew : outbound.outbounds.length < 256)
    (hdownload : (outbound.downloadRatios.map UInt8.toNat).sum = 100)
    (hupload : (outbound.uploadRatios.map UInt8.toNat).sum = 100) {serializer : AddressSerializer α} {uuid : UUID}
    {destination : α} {streams arrivals : List (ℕ × Bytes)}
    (hdial : outbound.dial serializer uuid destination = some streams) (hperm : arrivals.Perm streams) :
    ∃ server, serverConn serializer arrivals = some server ∧
      server.conns = (List.range outbound.outbounds.length).map some ∧
      ∀ written read, (written, read) = (outbound.uploadRatios, server.downloadRatios) ∨
          (written, read) = (server.uploadRatios, outbound.downloadRatios) →
        (∀ number : ℕ, splitByRatios number written = splitByRatios number read ∧
          (∀ part ∈ splitByRatios number written, 0 ≤ part) ∧ (splitByRatios number written).sum = number) ∧
        ∀ as p, Run (step written read) (careful · ·) .start as p → p.Exact read := by
  refine ⟨_, serverConn_eq (Outbound.checked_of_new hnew) hfew hdial hperm, rfl, ?_⟩
  intro written read hratios
  obtain ⟨rfl, hsum⟩ : written = read ∧ (read.map UInt8.toNat).sum = 100 := by
    obtain h | h := hratios <;> cases h
    · exact ⟨rfl, hupload⟩
    · exact ⟨rfl, hdownload⟩
  refine ⟨fun number => ⟨rfl, splitByRatios_nonneg hsum number, splitByRatios_sum hsum number⟩, fun as p hrun => ?_⟩
  have hsound : p.Sound written :=
    hrun.invariant (fun hp hmet hstep => hp.step hsum hmet hstep) (.start written)
  obtain ⟨_, _, _, _, _, hp⟩ := hsound
  exact hp.exact

end

def twoOptions : List (BondOutbound Unit) := [⟨(), 30, 60, 1⟩, ⟨(), 70, 40, 0⟩]

def twoOutbound : Outbound Unit := ⟨[(), ()], [30, 70], [60, 40]⟩

def fiveActs : List Act :=
  [.write [1, 2, 3, 4, 5] [], .push 2, .push 1, .push 2, .push 2, .read 2, .pull 1, .pull 1, .pull 3, .pull 2, .read 9]

theorem bond_roundTrip_two : newOutbound some twoOptions = .ok twoOutbound ∧ ∃ streams server p,
    twoOutbound.dial ipv4Serializer zeroUUID loopback = some streams ∧ serverConn ipv4Serializer streams.reverse = some server ∧
    Run (step twoOutbound.uploadRatios server.downloadRatios) (careful · ·) .start fiveActs p ∧
    p.received = [1, 2, 3, 4, 5] ∧ p.Exact server.downloadRatios := by
  have hnew : newOutbound some twoOptions = .ok twoOutbound := rfl
  obtain ⟨streams, hdial⟩ : ∃ streams, twoOutbound.dial ipv4Serializer zeroUUID loopback = some streams := ⟨_, rfl⟩
  obtain ⟨server, hserver, _, hstream⟩ := bond_roundTrip hnew (by decide) rfl rfl hdial streams.reverse_perm
  have hratios : server.downloadRatios = [60, 40] := by
    have hany : ((twoOutbound.dial ipv4Serializer zeroUUID loopback).bind fun streams => serverConn ipv4Serializer streams.reverse).any
        (fun server => server.downloadRatios = [60, 40]) = true := by decide +kernel
    rw [hdial, bind_some, hserver] at hany
    simpa using hany
  have hany : (execWhile (step twoOutbound.uploadRatios server.downloadRatios) careful .start fiveActs).any
      (fun p => p.received = [1, 2, 3, 4, 5]) = true := by
    rw [hratios]
    decide +kernel
  obtain ⟨p, hrun, hreceived⟩ := Run.exists_of_decideWhile hany
  exact ⟨hnew, streams, server, p, hdial, hserver, hrun, hreceived, (hstream _ _ (.inl rfl)).2 _ p hrun⟩

def wrappedOptions : List (BondOutbound Unit) := [⟨(), 200, 100, 1⟩, ⟨(), 156, 0, 1⟩]

def manyOptions : List (BondOutbound Unit) := [⟨(), 100, 100, 1⟩, ⟨(), 0, 0, 255⟩, ⟨(), 0, 0, 1⟩]

def emptyActs : List Act := [.write [] [], .push 2, .read 1, .pull 2]

def longActs : List Act := [.write (List.replicate 65536 7) [], .push 2, .read 1, .pull 2]

def shortActs : List Act := [.write [0, 5] [], .push 1, .push 2, .read 1, .pull 2]

theorem eof_of_wrapped (hb : b.length = 65536) :
    (exec (Pipe.step [100] [100]) .start [.write b [], .push 2, .read 1, .pull 2]).any (fun p => decide (p.eof = true)) = true := by
  have hheader : frameHeader b = [0, 0] := by
    rw [frameHeader, hb]
    rfl
  have hsplit : splitByRatios (ofBigEndian [0, 0]) [100] = [0] := rfl
  simp [exec, Pipe.step, Pipe.start, Pipe.push, Pipe.send, Pipe.pull, Pipe.take, Pipe.nextCopy, Pipe.deliver, hheader,
    hsplit]

theorem bond_stream_ends : (∃ outbound, newOutbound some wrappedOptions = .ok outbound ∧
      ∃ part ∈ splitByRatios 100 outbound.downloadRatios, part < 0) ∧
    ((newOutbound some manyOptions).toOption.any fun outbound =>
      ((outbound.dial ipv4Serializer zeroUUID loopback).bind (serverConn ipv4Serializer)).any fun server =>
        server.conns = [some 0]) = true ∧
    (∃ p, Run (step [100] [100]) anyStep .start emptyActs p ∧ p.eof = true) ∧
    (∃ p, Run (step [100] [100]) anyStep .start longActs p ∧ p.eof = true) ∧
    ∃ p, Run (step [100] [100]) anyStep .start shortActs p ∧ p.eof = true := by
  refine ⟨⟨_, rfl, -100, by decide, by decide⟩, by decide +kernel, ?_, ?_, ?_⟩
  · exact Run.exists_of_decide (by decide +kernel)
  · exact Run.exists_of_decide (eof_of_wrapped List.length_replicate)
  · exact Run.exists_of_decide (by decide +kernel)

end Hydracore.Bond
