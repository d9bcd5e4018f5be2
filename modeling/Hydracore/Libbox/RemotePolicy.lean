import Hydracore.Libbox.ReferenceGraph

namespace Hydracore.Libbox

open Formats Systems

abbrev Checked (α : Type) := Except (List PolicyError) α

def hydraCoreMaxRemoteConfigBytes : ℕ := 12 * 1024 * 1024

mutual

def consumeJSONValue (spot : Spot) (depth : ℕ) : Json → List PolicyError
  | .object entries => if depth > 64 then [⟨.jsonTooDeep, spot⟩] else consumeEntries spot depth [] entries
  | .array items => if depth > 64 then [⟨.jsonTooDeep, spot⟩] else consumeItems spot depth 0 items
  | _ => if depth > 64 then [⟨.jsonTooDeep, spot⟩] else []

def consumeEntries (spot : Spot) (depth : ℕ) (seen : List String) : List (String × Json) → List PolicyError
  | [] => []
  | (key, value) :: rest =>
    if key ∈ seen then [⟨.duplicateJSONKey, spot.field key⟩]
    else thenErrors (consumeJSONValue (spot.field key) (depth + 1) value)
      (consumeEntries spot depth (key :: seen) rest)

def consumeItems (spot : Spot) (depth i : ℕ) : List Json → List PolicyError
  | [] => []
  | value :: rest =>
    thenErrors (consumeJSONValue (spot.index i) (depth + 1) value) (consumeItems spot depth (i + 1) rest)

end

def rejectDuplicateJSONKeys (document : Json) : List PolicyError := consumeJSONValue .root 0 document

def exactly (name key : String) : Bool := key = name

def textUnder (name : String) (entries : List (String × Json)) : String :=
  match lastValue (exactly name) entries with
  | some (.string s) => s
  | _ => ""

def reservedTag (tag : String) : Bool := "__hydra.".toList.isPrefixOf tag.toList

def entriesOf : Json → List (String × Json)
  | .object entries => entries
  | _ => []

def isMap : Json → Bool
  | .object _ | .null => true
  | _ => false

def decodeRemoteTypedObject (spot : Spot) (item : Json) (i : ℕ) : Checked RemoteObject := do
  let entries := entriesOf item
  let typeName := textUnder "type" entries
  let tag := textUnder "tag" entries
  require (typeName ≠ "") ⟨.missingType, (spot.index i).field "type"⟩
  require (tag ≠ "") ⟨.missingTag, (spot.index i).field "tag"⟩
  require (!reservedTag tag) ⟨.reservedTag, (spot.index i).field "tag"⟩
  return ⟨typeName, tag, entries⟩

def decodeRemoteTypedObjects (spot : Spot) : Option Json → Checked (List RemoteObject)
  | none | some .null => .ok []
  | some (.array items) => do
    require (items.all isMap) ⟨.objectList, spot⟩
    items.zipIdx.mapM fun (item, i) => decodeRemoteTypedObject spot item i
  | some _ => .error [⟨.objectList, spot⟩]

def hydraCoreLocalAuthorityFields : List String :=
  ["bind_interface", "routing_mark", "netns", "protect_path", "domain_resolver", "plugin", "plugin_opts", "command",
    "executable", "config_path", "database_path", "state_directory", "socket_path", "certificate_path", "key_path"]

mutual

def rejectLocalAuthorityFields (spot : Spot) : Json → List PolicyError
  | .object entries => rejectEntries spot entries
  | .array items => rejectItems spot 0 items
  | _ => []

def rejectEntries (spot : Spot) : List (String × Json) → List PolicyError
  | [] => []
  | (key, value) :: rest =>
    (if key ∈ hydraCoreLocalAuthorityFields then [⟨.localAuthorityField, spot.field key⟩]
      else rejectLocalAuthorityFields (spot.field key) value) ++ rejectEntries spot rest

def rejectItems (spot : Spot) (i : ℕ) : List Json → List PolicyError
  | [] => []
  | value :: rest => thenErrors (rejectLocalAuthorityFields (spot.index i) value) (rejectItems spot (i + 1) rest)

end

def safeInbounds (callEnabled : Bool) : List String := if callEnabled then ["call"] else []

def safeOutbounds (callEnabled : Bool) : List String :=
  ["socks", "http", "vmess", "trojan", "naive", "shadowtls", "vless", "mieru", "anytls", "trusttunnel", "hysteria",
    "hysteria2", "tuic", "sudoku", "snell"] ++ if callEnabled then ["call"] else []

def safeEndpoints : List String := ["wireguard"]

def allowedTopLevel : List String := ["$schema", "inbounds", "outbounds", "endpoints"]

def checkInbound (callEnabled : Bool) (spot : Spot) (object : RemoteObject) (i : ℕ) : Checked Unit :=
  require (object.type ∈ safeInbounds callEnabled) ⟨.inboundType, (spot.index i).field "type"⟩

def checkOutbound (callEnabled : Bool) (spot : Spot) (object : RemoteObject) (i : ℕ) : Checked Unit := do
  require (object.type ∈ safeOutbounds callEnabled) ⟨.outboundType, (spot.index i).field "type"⟩
  if object.type ≠ "call" then stop (rejectEntries (spot.index i) object.raw) else .ok ()

def checkEndpoint (spot : Spot) (object : RemoteObject) (i : ℕ) : Checked Unit := do
  require (object.type ∈ safeEndpoints) ⟨.endpointType, (spot.index i).field "type"⟩
  stop (rejectEntries (spot.index i) object.raw)

def validateHydraRemoteConfigV2 (visits : ∀ inbounds objects, Iteration inbounds objects) (callEnabled : Bool)
    (size : ℕ) (document : Json) : Checked Unit := do
  require (size ≤ hydraCoreMaxRemoteConfigBytes) ⟨.remoteTooLarge, .root⟩
  stop (rejectDuplicateJSONKeys document)
  require (isMap document) ⟨.remoteNotObject, .root⟩
  let fields := entriesOf document
  let _ ← rangeMap (fun (field, _) => require (field ∈ allowedTopLevel) ⟨.topLevelField, Spot.root.field field⟩) fields
  let inbounds ← decodeRemoteTypedObjects (Spot.root.field "inbounds") (lastValue (exactly "inbounds") fields)
  let outbounds ← decodeRemoteTypedObjects (Spot.root.field "outbounds") (lastValue (exactly "outbounds") fields)
  let endpoints ← decodeRemoteTypedObjects (Spot.root.field "endpoints") (lastValue (exactly "endpoints") fields)
  let _ ← inbounds.zipIdx.mapM fun (object, i) => checkInbound callEnabled (Spot.root.field "inbounds") object i
  let _ ← outbounds.zipIdx.mapM fun (object, i) => checkOutbound callEnabled (Spot.root.field "outbounds") object i
  let _ ← endpoints.zipIdx.mapM fun (object, i) => checkEndpoint (Spot.root.field "endpoints") object i
  (validateRemoteReferenceGraph inbounds outbounds endpoints (visits _ _)).mapError ([·])

end Hydracore.Libbox
