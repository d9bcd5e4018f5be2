import Hydracore.Systems.Runs

/-!
A provider that keeps its outbounds in the outbound manager: `UpdateOutbounds` of the adapter, and `Remove` and `Create`
of the manager.
-/

namespace Hydracore.Provider

open Function

variable {ο : Type}

structure Opt (ο : Type) where
  tag : String
  kind : String
  options : Option ο
  deriving DecidableEq

def Opt.zero : Opt ο := ⟨"", "", none⟩

/-- `serial` tells outbounds apart, `provided` those that the provider has created. -/
structure Outbound (ο : Type) where
  serial : ℕ
  tag : String
  kind : String
  options : Option ο
  dependencies : List String
  provided : Bool
  deriving DecidableEq

structure Manager (ο : Type) where
  endpoint : String → Option (Outbound ο)
  defaultTag : String
  outbounds : List (Outbound ο)
  outboundByTag : String → Option (Outbound ο)
  dependByTag : String → List String
  defaultOutbound : Option (Outbound ο)
  created : ℕ

structure Creation where
  dependencies : Option (List String)
  starts : Bool
  closes : Bool

def Creation.succeeds (creation : Creation) : Bool := creation.dependencies.isSome && creation.starts && creation.closes

namespace Manager

variable (m : Manager ο)

def new (endpoint : String → Option (Outbound ο)) (defaultTag : String) : Manager ο :=
  ⟨endpoint, defaultTag, [], fun _ => none, fun _ => [], none, 0⟩

def outbound (tag : String) : Option (Outbound ο) := (m.outboundByTag tag).or (m.endpoint tag)

def removeDependencies (depends : String → List String) (outbound : Outbound ο) : String → List String :=
  outbound.dependencies.foldl
    (fun depends dependency => update depends dependency ((depends dependency).filter (· ≠ outbound.tag))) depends

variable [DecidableEq ο]

def without (outbound : Outbound ο) : Manager ο :=
  { m with
    outbounds := m.outbounds.filter (· ≠ outbound)
    dependByTag := removeDependencies m.dependByTag outbound }

def delete (tag : String) (outbound : Outbound ο) : Manager ο :=
  let rest := m.without outbound
  { rest with
    outboundByTag := update m.outboundByTag tag none
    defaultOutbound := if m.defaultOutbound = some outbound then rest.outbounds.head? else m.defaultOutbound }

/-- The second component tells whether `Remove` succeeds; `closes` is how the end of the outbound goes. -/
def remove (tag : String) (closes : Bool) : Manager ο × Bool :=
  match m.outboundByTag tag with
  | none => (m, false)
  | some outbound => if m.dependByTag tag ≠ [] then (m, false) else (m.delete tag outbound, closes)

def install (outbound : Outbound ο) : Manager ο :=
  let loaded := m.outboundByTag outbound.tag
  let rest := (loaded.map m.without).getD m
  { rest with
    outbounds := rest.outbounds ++ [outbound]
    outboundByTag := update m.outboundByTag outbound.tag (some outbound)
    dependByTag := outbound.dependencies.foldl
      (fun depends dependency => update depends dependency (depends dependency ++ [outbound.tag]))
      rest.dependByTag
    defaultOutbound :=
      if outbound.tag = m.defaultTag ∨ (m.defaultTag = "" ∧ m.defaultOutbound = none) ∨
        (loaded.isSome ∧ m.defaultOutbound = loaded) then some outbound else m.defaultOutbound
    created := m.created + 1 }

def create (tag kind : String) (options : Option ο) (provided : Bool) (creation : Creation) : Manager ο × Bool :=
  if tag = "" then (m, false)
  else match creation.dependencies with
    | none => (m, false)
    | some dependencies =>
      if creation.starts then
        (m.install ⟨m.created, tag, kind, options, dependencies, provided⟩,
          (m.outboundByTag tag).isNone || creation.closes)
      else (m, false)

end Manager

def uniquifyFrom : (String → ℕ) → List (Opt ο) → List (Opt ο)
  | _, [] => []
  | count, opt :: opts =>
    let seen := count opt.tag + 1
    (if seen > 1 then { opt with tag := opt.tag ++ " #" ++ toString seen } else opt) ::
      uniquifyFrom (update count opt.tag seen) opts

def uniquifyTags (opts : List (Opt ο)) : List (Opt ο) := uniquifyFrom (fun _ => 0) opts

/-- `clean` removes emojis from a tag if that is set, `override` replaces dialer options if those are set. -/
structure Settings (ο : Type) where
  providerTag : String
  clean : String → String
  override : Option ο → Option ο

namespace Settings

variable (settings : Settings ο)

def tagOf (i : ℕ) (opt : Opt ο) : String :=
  if opt.tag ≠ "" then settings.providerTag ++ "/" ++ opt.tag else settings.providerTag ++ "/" ++ toString i

def prepare (opts : List (Opt ο)) : List (Opt ο) :=
  (uniquifyTags (opts.map fun opt => { opt with tag := settings.clean opt.tag })).map fun opt =>
    { opt with options := settings.override opt.options }

def entries (opts : List (Opt ο)) : List (String × Opt ο) := opts.mapIdx fun i opt => (settings.tagOf i opt, opt)

end Settings

structure Adapter (ο : Type) where
  manager : Manager ο
  outbounds : List (Outbound ο)
  outboundsByTag : String → Option (Outbound ο)
  lastOutOpts : List (Opt ο)

structure Update (ο : Type) where
  newOpts : List (Opt ο)
  creations : ℕ → Creation
  closes : String → Bool

namespace Adapter

def start (manager : Manager ο) : Adapter ο := ⟨manager, [], fun _ => none, []⟩

variable [DecidableEq ο]

def removeUseless (tags : List String) (closes : String → Bool) : List (Outbound ο) → Manager ο → Manager ο × Bool
  | [], m => (m, true)
  | outbound :: outbounds, m =>
    if outbound.tag ∈ tags then removeUseless tags closes outbounds m
    else
      let (removed, ok) := m.remove outbound.tag (closes outbound.tag)
      let (rest, allOk) := removeUseless tags closes outbounds removed
      (rest, ok && allOk)

def oldOpt (oldOpts : List (Opt ο)) (tag : String) : Opt ο := (oldOpts.reverse.find? (·.tag = tag)).getD .zero

def updateEntry (oldOpts : List (Opt ο)) (tag : String) (opt : Opt ο) (creation : Creation) (m : Manager ο) :
    Manager ο × Option (Outbound ο) :=
  if (m.outbound tag).isNone ∨ opt ≠ oldOpt oldOpts opt.tag then
    let (created, ok) := m.create tag opt.kind opt.options true creation
    (created, if ok then created.outbound tag else none)
  else (m, m.outbound tag)

def updateLoop (oldOpts : List (Opt ο)) (creations : ℕ → Creation) :
    ℕ → List (String × Opt ο) → Manager ο → Manager ο × List (Outbound ο)
  | _, [], m => (m, [])
  | i, entry :: entries, m =>
    let (next, outbound) := updateEntry oldOpts entry.1 entry.2 (creations i) m
    let (rest, outbounds) := updateLoop oldOpts creations (i + 1) entries next
    (rest, outbound.toList ++ outbounds)

variable (settings : Settings ο)

def updateOutbounds (a : Adapter ο) (update : Update ο) : Adapter ο :=
  let newOpts := settings.prepare update.newOpts
  let entries := settings.entries newOpts
  let useful := (removeUseless (entries.map Prod.fst) update.closes a.outbounds a.manager).1
  let (manager, outbounds) := updateLoop a.lastOutOpts update.creations 0 entries useful
  { manager := manager
    outbounds := outbounds
    outboundsByTag := outbounds.foldl (fun byTag outbound => Function.update byTag outbound.tag (some outbound)) fun _ => none
    lastOutOpts := newOpts }

def step (a : Adapter ο) (update : Update ο) : Option (Adapter ο) := some (a.updateOutbounds settings update)

end Adapter

end Hydracore.Provider
