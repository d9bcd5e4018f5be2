import Hydracore.Libbox.RemotePolicy
import Hydracore.Systems.Runs
import Mathlib.Data.List.Induction

namespace Hydracore.Libbox

open Formats Systems List Json

structure NativeObject where
  type : String
  raw : List (String × Json)

/-- The types registered, each with whether an object decodes into the options of the type. -/
abbrev OptionsRegistry := String → Option (List (String × Json) → Bool)

structure OptionsRegistries where
  inbounds : OptionsRegistry
  outbounds : OptionsRegistry
  endpoints : OptionsRegistry

def nativeType (entries : List (String × Json)) : Option String :=
  entries.foldlM (fun type e =>
    if binds "type" e.1 then
      match e.2 with
      | .string s => some s
      | .null => some type
      | _ => none
    else some type) ""

def nativeObject (registry : OptionsRegistry) (removed : List String) : Json → Option NativeObject
  | .object entries => do
    let type ← nativeType entries
    guard (type ∉ removed)
    let decodes ← registry type
    guard (decodes entries)
    return ⟨type, entries⟩
  | _ => none

def nativeSection (registry : OptionsRegistry) (removed : List String) (name : String) (fields : List (String × Json)) :
    Option (List NativeObject) :=
  match lastValue (binds name) fields with
  | none | some .null => some []
  | some (.array items) => items.mapM (nativeObject registry removed)
  | some _ => none

structure NativeConfig where
  inbounds : List NativeObject
  outbounds : List NativeObject
  endpoints : List NativeObject

def nativeConfig (registries : OptionsRegistries) (document : Json) : Option NativeConfig := do
  let inbounds ← nativeSection registries.inbounds [] "inbounds" (entriesOf document)
  let outbounds ← nativeSection registries.outbounds ["dns"] "outbounds" (entriesOf document)
  let endpoints ← nativeSection registries.endpoints [] "endpoints" (entriesOf document)
  return ⟨inbounds, outbounds, endpoints⟩

namespace NativeObject

section

variable (o : NativeObject)

def policyType : String := textUnder "type" o.raw

/-- The type that the last respelled key `type` after the exact one gives, if any gives one. -/
def retyped : Option String :=
  (o.raw.reverse.takeWhile fun e => e.1 ≠ "type").findSome? fun e =>
    match e.2 with
    | .string s => if binds "type" e.1 then some s else none
    | _ => none

def carriesAuthority : Bool :=
  Json.anyKeyEntries (fun key => hydraCoreLocalAuthorityFields.any fun name => binds name key) o.raw

def namesAuthority : Bool :=
  Json.anyKeyEntries (fun key => decide (key ∈ hydraCoreLocalAuthorityFields)) o.raw

def respellsAuthority : Bool :=
  Json.anyKeyEntries (fun key => hydraCoreLocalAuthorityFields.any fun name => respells name key) o.raw

end

end NativeObject

def Sound (registries : OptionsRegistries) (callEnabled : Bool) (document : Json) : Prop :=
  ∀ c, nativeConfig registries document = some c → (∀ o ∈ c.inbounds, o.type ∈ safeInbounds callEnabled) ∧
    (∀ o ∈ c.outbounds, o.type ∈ safeOutbounds callEnabled ∧ (o.type ≠ "call" → o.carriesAuthority = false)) ∧
    (∀ o ∈ c.endpoints, o.type ∈ safeEndpoints ∧ o.carriesAuthority = false)

def HarmlessSpellings (registries : OptionsRegistries) (callEnabled : Bool) (document : Json) : Prop :=
  ∀ c, nativeConfig registries document = some c →
    (∀ o ∈ c.inbounds, ∀ type, o.retyped = some type → type ∈ safeInbounds callEnabled) ∧
    (∀ o ∈ c.outbounds, (∀ type, o.retyped = some type → type ∈ safeOutbounds callEnabled) ∧
      (o.type ≠ "call" → o.respellsAuthority = false ∧ (o.policyType = "call" → o.namesAuthority = false))) ∧
    (∀ o ∈ c.endpoints, (∀ type, o.retyped = some type → type ∈ safeEndpoints) ∧ o.respellsAuthority = false)

theorem carriesAuthority_iff (o : NativeObject) :
    o.carriesAuthority = false ↔ o.namesAuthority = false ∧ o.respellsAuthority = false := by
  have hsplit : (fun key => hydraCoreLocalAuthorityFields.any fun name => binds name key) = fun key =>
      decide (key ∈ hydraCoreLocalAuthorityFields) || hydraCoreLocalAuthorityFields.any fun name => respells name key := by
    funext key
    apply Bool.eq_iff_iff.mpr
    simp only [any_eq_true, binds_eq, Bool.or_eq_true, decide_eq_true_eq, and_or_left, exists_or]
    constructor
    · rintro (⟨name, hmem, rfl⟩ | hrespelled)
      · exact .inl hmem
      · exact .inr hrespelled
    · rintro (hmem | hrespelled)
      · exact .inl ⟨key, hmem, rfl⟩
      · exact .inr hrespelled
  have hor := anyKey_or (fun key => decide (key ∈ hydraCoreLocalAuthorityFields))
    (fun key => hydraCoreLocalAuthorityFields.any fun name => respells name key) (.object o.raw)
  simp only [anyKey] at hor
  simp only [NativeObject.carriesAuthority, hsplit, NativeObject.namesAuthority, NativeObject.respellsAuthority,
    ← Bool.not_eq_true, hor, not_or]

theorem rejectLocalAuthorityFields_nil (v : Json) (spot : Spot) (h : rejectLocalAuthorityFields spot v = []) :
    v.anyKey (fun key => decide (key ∈ hydraCoreLocalAuthorityFields)) = false := by
  induction v using induction generalizing spot with
  | null | bool b | number literal | string s => rfl
  | array items ih =>
    rw [anyKey]
    rw [rejectLocalAuthorityFields] at h
    generalize 0 = i at h
    induction items generalizing i with
    | nil => rfl
    | cons v rest ihrest =>
      obtain ⟨hv, hrest⟩ := thenErrors_nil h
      rw [anyKeyItems, ih v mem_cons_self _ hv, Bool.false_or]
      exact ihrest (fun w hw => ih w (mem_cons_of_mem _ hw)) _ hrest
  | object entries ih =>
    rw [anyKey]
    rw [rejectLocalAuthorityFields] at h
    induction entries with
    | nil => rfl
    | cons e rest ihrest =>
      obtain ⟨hv, hrest⟩ := append_eq_nil_iff.mp h
      split_ifs at hv with hkey
      rw [anyKeyEntries, ih e mem_cons_self _ hv, decide_eq_false hkey, Bool.false_or, Bool.false_or]
      exact ihrest (fun w hw => ih w (mem_cons_of_mem _ hw)) hrest

variable {spot : Spot} {name : String} {entries : List (String × Json)} {item document : Json} {size : ℕ}
  {registry : OptionsRegistry} {removed : List String} {n : NativeObject}

theorem lastValue_congr {p q : String → Bool} (h : ∀ e ∈ entries, p e.1 = q e.1) :
    lastValue p entries = lastValue q entries := by
  rw [lastValue, lastValue, filter_congr h]

theorem binds_topLevel (hname : name ∈ allowedTopLevel) {key : String} (hkey : key ∈ allowedTopLevel) :
    binds name key = exactly name key := by
  have hall : ∀ name ∈ allowedTopLevel, ∀ key ∈ allowedTopLevel, binds name key = exactly name key := by
    decide +kernel
  exact hall name hname key hkey

structure Accepted (callEnabled : Bool) (document : Json) (inbounds outbounds endpoints : List RemoteObject) : Prop where
  fields : ∀ e ∈ entriesOf document, e.1 ∈ allowedTopLevel
  decodedInbounds : decodeRemoteTypedObjects (Spot.root.field "inbounds")
    (lastValue (exactly "inbounds") (entriesOf document)) = .ok inbounds
  decodedOutbounds : decodeRemoteTypedObjects (Spot.root.field "outbounds")
    (lastValue (exactly "outbounds") (entriesOf document)) = .ok outbounds
  decodedEndpoints : decodeRemoteTypedObjects (Spot.root.field "endpoints")
    (lastValue (exactly "endpoints") (entriesOf document)) = .ok endpoints
  inbound : ∀ o ∈ inbounds, o.type ∈ safeInbounds callEnabled
  outbound : ∀ o ∈ outbounds, o.type ∈ safeOutbounds callEnabled ∧
    (o.type ≠ "call" → ∃ spot, rejectEntries spot o.raw = [])
  endpoint : ∀ o ∈ endpoints, o.type ∈ safeEndpoints ∧ ∃ spot, rejectEntries spot o.raw = []

variable {o : RemoteObject} {u : Unit} {visits : ∀ inbounds objects, Iteration inbounds objects} {callEnabled : Bool}
  {i : ℕ}

theorem accepted_of_validate (h : validateHydraRemoteConfigV2 visits callEnabled size document = .ok u) :
    ∃ inbounds outbounds endpoints, Accepted callEnabled document inbounds outbounds endpoints := by
  obtain ⟨_, -, h⟩ := exists_ok_bind h
  obtain ⟨_, -, h⟩ := exists_ok_bind h
  obtain ⟨_, -, h⟩ := exists_ok_bind h
  obtain ⟨_, hfields, h⟩ := exists_ok_bind h
  obtain ⟨inbounds, hinbounds, h⟩ := exists_ok_bind h
  obtain ⟨outbounds, houtbounds, h⟩ := exists_ok_bind h
  obtain ⟨endpoints, hendpoints, h⟩ := exists_ok_bind h
  obtain ⟨_, hin, h⟩ := exists_ok_bind h
  obtain ⟨_, hout, h⟩ := exists_ok_bind h
  obtain ⟨_, hend, -⟩ := exists_ok_bind h
  refine ⟨inbounds, outbounds, endpoints, ?_, hinbounds, houtbounds, hendpoints, ?_, ?_, ?_⟩
  · intro e he
    obtain ⟨_, -, hok⟩ := ok_of_mem (rangeMap_ok hfields) he
    exact of_decide_eq_true (require_ok hok)
  · intro o ho
    obtain ⟨i, _, hok⟩ := of_mapM_zipIdx_ok hin ho
    exact of_decide_eq_true (require_ok hok)
  · intro o ho
    obtain ⟨i, _, hok⟩ := of_mapM_zipIdx_ok hout ho
    obtain ⟨_, hsafe, hreject⟩ := exists_ok_bind hok
    refine ⟨of_decide_eq_true (require_ok hsafe), fun hcall => ?_⟩
    rw [if_pos hcall] at hreject
    exact ⟨_, stop_ok hreject⟩
  · intro o ho
    obtain ⟨i, _, hok⟩ := of_mapM_zipIdx_ok hend ho
    obtain ⟨_, hsafe, hreject⟩ := exists_ok_bind hok
    exact ⟨of_decide_eq_true (require_ok hsafe), _, stop_ok hreject⟩

theorem decodeRemoteTypedObject_ok (h : decodeRemoteTypedObject spot item i = .ok o) :
    o.raw = entriesOf item ∧ o.type = textUnder "type" (entriesOf item) ∧ o.type ≠ "" := by
  obtain ⟨_, htyped, h⟩ := exists_ok_bind h
  obtain ⟨_, -, h⟩ := exists_ok_bind h
  obtain ⟨_, -, h⟩ := exists_ok_bind h
  cases h
  exact ⟨rfl, rfl, of_decide_eq_true (require_ok htyped)⟩

theorem textUnder_append (name : String) (entries : List (String × Json)) (e : String × Json) :
    textUnder name (entries ++ [e]) = if e.1 = name then textUnder name [e] else textUnder name entries := by
  by_cases h : e.1 = name
  · simp [textUnder, lastValue, exactly, h]
  · simp [textUnder, lastValue, exactly, h]

theorem nativeType_eq {type : String} (h : nativeType entries = some type)
    (hpolicy : textUnder "type" entries ≠ "") :
    type = (NativeObject.retyped ⟨type, entries⟩).getD (textUnder "type" entries) := by
  -- by the last entry, which gives the type or leaves the one before it
  induction entries using reverseRecOn generalizing type with
  | nil => exact absurd rfl hpolicy
  | append_singleton entries e ih =>
    obtain ⟨key, v⟩ := e
    rw [nativeType, foldlM_append] at h
    obtain ⟨before, hbefore, h⟩ := Option.bind_eq_some_iff.mp h
    rw [textUnder_append] at hpolicy ⊢
    by_cases hexact : key = "type"
    · subst hexact
      cases v with
      | string s =>
        cases h
        simp [NativeObject.retyped, textUnder, lastValue, exactly]
      | null => exact absurd rfl hpolicy
      | _ => cases h
    · have hkept : before = type → type = (NativeObject.retyped ⟨type, entries⟩).getD (textUnder "type" entries) := by
        rintro rfl
        exact ih hbefore (by simpa [hexact] using hpolicy)
      rw [if_neg hexact]
      cases hbinds : binds "type" key with
      | false =>
        have hsame : before = type := by simpa [hbinds] using h
        cases v <;> simpa [NativeObject.retyped, hexact, hbinds] using hkept hsame
      | true =>
        cases v with
        | string s =>
          have hlast : s = type := by simpa [hbinds] using h
          simp [NativeObject.retyped, hexact, hbinds, hlast]
        | null =>
          have hsame : before = type := by simpa [hbinds] using h
          simpa [NativeObject.retyped, hexact] using hkept hsame
        | _ => simp [hbinds] at h

theorem nativeObject_eq_some (h : nativeObject registry removed item = some n) :
    item = .object n.raw ∧ nativeType n.raw = some n.type := by
  cases item with
  | object entries =>
    obtain ⟨type, htype, h⟩ := Option.bind_eq_some_iff.mp h
    obtain ⟨_, -, h⟩ := Option.bind_eq_some_iff.mp h
    obtain ⟨_, -, h⟩ := Option.bind_eq_some_iff.mp h
    obtain ⟨_, -, h⟩ := Option.bind_eq_some_iff.mp h
    cases h
    exact ⟨rfl, htype⟩
  | _ => cases h

theorem exists_checked {fields : List (String × Json)} {objects : List RemoteObject} {natives : List NativeObject}
    (hsame : lastValue (binds name) fields = lastValue (exactly name) fields)
    (hdecoded : decodeRemoteTypedObjects spot (lastValue (exactly name) fields) = .ok objects)
    (hnative : nativeSection registry removed name fields = some natives) (hn : n ∈ natives) :
    ∃ o ∈ objects, o.raw = n.raw ∧ o.type = n.policyType ∧ n.type = n.retyped.getD n.policyType := by
  unfold nativeSection at hnative
  rw [hsame] at hnative
  split at hnative
  · cases hnative
    cases hn
  · cases hnative
    cases hn
  · rename_i items hitems
    rw [hitems] at hdecoded
    obtain ⟨_, -, hobjects⟩ := exists_ok_bind hdecoded
    obtain ⟨item, hitem, hread⟩ := ok_of_mem (mapM_eq_some_iff.mp hnative).flip hn
    obtain ⟨i, hi⟩ := mem_iff_getElem?.mp hitem
    obtain ⟨o, ho, hok⟩ := ok_of_mem (mapM_ok hobjects) (mk_mem_zipIdx_iff_getElem?.mpr hi)
    obtain ⟨hraw, htype, hne⟩ := decodeRemoteTypedObject_ok hok
    obtain ⟨rfl, hnative⟩ := nativeObject_eq_some hread
    exact ⟨o, ho, hraw, htype, nativeType_eq hnative (htype ▸ hne)⟩
  · cases hnative

theorem type_mem_iff {safe : List String} (htype : n.type = n.retyped.getD n.policyType)
    (hsafe : n.policyType ∈ safe) : n.type ∈ safe ↔ ∀ type, n.retyped = some type → type ∈ safe := by
  rw [htype]
  cases n.retyped with
  | none => simp [hsafe]
  | some type => simp

theorem sound_iff_harmlessSpellings {registries : OptionsRegistries}
    {visits : ∀ inbounds objects, Iteration inbounds objects} {callEnabled : Bool} {size : ℕ} {document : Json}
    (h : validateHydraRemoteConfigV2 visits callEnabled size document = .ok ()) :
    Sound registries callEnabled document ↔ HarmlessSpellings registries callEnabled document := by
  obtain ⟨inbounds, outbounds, endpoints, ha⟩ := accepted_of_validate h
  have hsame (name : String) (hname : name ∈ allowedTopLevel) :
      lastValue (binds name) (entriesOf document) = lastValue (exactly name) (entriesOf document) :=
    lastValue_congr fun e he => binds_topLevel hname (ha.fields e he)
  refine forall_congr' fun c => imp_congr_right fun hc => ?_
  obtain ⟨nin, hnin, hc⟩ := Option.bind_eq_some_iff.mp hc
  obtain ⟨nout, hnout, hc⟩ := Option.bind_eq_some_iff.mp hc
  obtain ⟨nend, hnend, hc⟩ := Option.bind_eq_some_iff.mp hc
  cases hc
  refine and_congr (forall₂_congr fun n hn => ?_) (and_congr (forall₂_congr fun n hn => ?_) (forall₂_congr fun n hn => ?_))
  · obtain ⟨o, ho, -, htype, hread⟩ := exists_checked (hsame "inbounds" (by decide)) ha.decodedInbounds hnin hn
    exact type_mem_iff hread (htype ▸ ha.inbound o ho)
  · obtain ⟨o, ho, hraw, htype, hread⟩ := exists_checked (hsame "outbounds" (by decide)) ha.decodedOutbounds hnout hn
    obtain ⟨hsafe, hreject⟩ := ha.outbound o ho
    refine and_congr (type_mem_iff hread (htype ▸ hsafe)) (imp_congr_right fun _ => ?_)
    rw [carriesAuthority_iff, and_comm, and_congr_right_iff]
    intro _
    refine ⟨fun hnames _ => hnames, fun hnames => ?_⟩
    by_cases hpolicy : n.policyType = "call"
    · exact hnames hpolicy
    · obtain ⟨spot, hreject⟩ := hreject (htype ▸ hpolicy)
      exact rejectLocalAuthorityFields_nil (.object _) spot (hraw ▸ hreject)
  · obtain ⟨o, ho, hraw, htype, hread⟩ := exists_checked (hsame "endpoints" (by decide)) ha.decodedEndpoints hnend hn
    obtain ⟨hsafe, spot, hreject⟩ := ha.endpoint o ho
    have hnames : n.namesAuthority = false := rejectLocalAuthorityFields_nil (.object _) spot (hraw ▸ hreject)
    rw [type_mem_iff hread (htype ▸ hsafe), carriesAuthority_iff, and_iff_right hnames]

def proxyRegistries : OptionsRegistries where
  inbounds := fun _ => none
  outbounds := fun type => if type = "socks" ∨ type = "http" ∨ type = "direct" then some fun _ => true else none
  endpoints := fun _ => none

def socksWith (more : List (String × Json)) : Json :=
  .object [("outbounds", .array [.object ([("type", .string "socks"), ("tag", .string "x"),
    ("server", .string "example.invalid"), ("server_port", .number "1080")] ++ more)])]

theorem sound_iff_retyped : validateHydraRemoteConfigV2 backwards true 106 (socksWith [("Type", .string "http")]) = .ok () ∧
    (nativeConfig proxyRegistries (socksWith [("Type", .string "http")])).isSome ∧
    (Sound proxyRegistries true (socksWith [("Type", .string "http")]) ↔
      HarmlessSpellings proxyRegistries true (socksWith [("Type", .string "http")])) := by
  have haccepted : validateHydraRemoteConfigV2 backwards true 106 (socksWith [("Type", .string "http")]) = .ok () := by
    decide +kernel
  exact ⟨haccepted, by decide +kernel, sound_iff_harmlessSpellings haccepted⟩

example : nativeConfig proxyRegistries (socksWith [("Type", .string "dns")]) = none := by rfl

theorem respelled_field_accepted : ¬ ∀ registries visits callEnabled size document,
    validateHydraRemoteConfigV2 visits callEnabled size document = .ok () → Sound registries callEnabled document := by
  intro haccepted
  have hsound := haccepted proxyRegistries backwards true 115 (socksWith [("Bind_Interface", .string "eth0")])
    (by decide +kernel)
  obtain ⟨c, hc, o, ho, htype, hauthority⟩ := exists_some_of_decide (P := fun c => ∃ o ∈ c.outbounds,
    o.type = "socks" ∧ o.carriesAuthority = true)
    (o := nativeConfig proxyRegistries (socksWith [("Bind_Interface", .string "eth0")])) (by decide +kernel)
  have hnone := ((hsound c hc).2.1 o ho).2 (by rw [htype]; decide)
  rw [hauthority] at hnone
  cases hnone

end Hydracore.Libbox
