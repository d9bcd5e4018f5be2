import Hydracore.Systems.Runs

/-!
Remote subscriptions and rule sets with their entity tags: `ProviderRemote.fetch` and `Start`, `RemoteRuleSet.fetch`,
`updateOnce`, `Cleanup` and `StartContext`, over one copy in the cache file.
-/

namespace Hydracore.Remote

variable {β : Type}

structure Origin (β : Type) where
  body : β
  etag : String
  deriving DecidableEq

/-- An answer to a request. `broken` is a 200 whose body cannot be read; `notModified` has the body the server has;
`applies` says whether the body of a 200 can be parsed and applied. -/
inductive Answer (β : Type) where
  | error
  | status (code : ℕ)
  | notModified (current : β)
  | broken
  | ok (body : β) (etag : String) (applies : Bool)
  deriving DecidableEq

/-- `sent` is the `If-None-Match` header, `applied` is what the outbounds or rules were built from at the time. -/
structure Request (β : Type) where
  sent : Option String
  applied : Option (Origin β)
  answer : Answer β
  deriving DecidableEq

/-- `content` is what the saved content was made from; the URL stands for its hash. -/
structure SavedBinary (β : Type) where
  content : Origin β
  lastUpdated : ℕ
  lastEtag : String
  urlHash : String

def ifNoneMatch (configured : Option String) (lastEtag : String) : Option String :=
  configured.or (if lastEtag = "" then none else some lastEtag)

/-- `lastOutOpts` stands for the outbounds by what they were built from; `requests` are all those ever sent. -/
structure ProviderRemote (β : Type) where
  running : Bool
  lastEtag : String
  lastUpdated : ℕ
  lastOutOpts : Option (Origin β)
  cache : Option (SavedBinary β)
  requests : List (Request β)

inductive ProviderStep (β : Type) where
  | start (stores restores : Bool)
  | close
  | fetch (now : ℕ) (saves : Bool) (answer : Answer β)

namespace ProviderRemote

def initial : ProviderRemote β := ⟨false, "", 0, none, none, []⟩

def start (p : ProviderRemote β) (stores restores : Bool) : ProviderRemote β :=
  let fresh : ProviderRemote β := { p with running := true, lastEtag := "", lastUpdated := 0, lastOutOpts := none }
  match (if stores then p.cache else none) with
  | none => fresh
  | some saveSub =>
    if restores then
      { fresh with
        lastOutOpts := some saveSub.content
        lastUpdated := saveSub.lastUpdated
        lastEtag := saveSub.lastEtag }
    else { fresh with running := false }

def fetch (p : ProviderRemote β) (configured : Option String) (now : ℕ) (saves : Bool) (answer : Answer β) :
    ProviderRemote β :=
  let asked : ProviderRemote β := { p with
    requests := p.requests ++ [⟨ifNoneMatch configured p.lastEtag, p.lastOutOpts, answer⟩] }
  match answer with
  | .error | .status _ | .broken => asked
  | .notModified _ =>
    { asked with
      lastUpdated := now + 1
      cache := if saves then p.cache.map fun saveSub => { saveSub with lastUpdated := now + 1 } else p.cache }
  | .ok body etag applies =>
    -- the tag is kept before the body has been parsed
    let tagged : ProviderRemote β := { asked with lastEtag := if etag ≠ "" then etag else p.lastEtag }
    if applies then
      { tagged with
        lastOutOpts := some ⟨body, etag⟩
        lastUpdated := now + 1
        cache := if saves then some ⟨⟨body, etag⟩, now + 1, tagged.lastEtag, ""⟩ else p.cache }
    else tagged

def step (configured : Option String) (p : ProviderRemote β) : ProviderStep β → Option (ProviderRemote β)
  | .start stores restores => if p.running then none else some (p.start stores restores)
  | .close => if p.running then some { p with running := false } else none
  | .fetch now saves answer => if p.running then some (p.fetch configured now saves answer) else none

def orderly (configured : Option String) (p : ProviderRemote β) (act : ProviderStep β) : Bool :=
  configured.isNone && match act with
    | .fetch _ _ (.ok _ etag applies) => if etag = "" then !applies || p.lastEtag = "" else applies
    | _ => true

end ProviderRemote

/-- `starting` says that the rule set has yet to be fetched for its start; `refs` counts the users of the rules, and
`rules` stands for them by what they were built from. -/
structure RemoteRuleSet (β : Type) where
  running : Bool
  starting : Bool
  refs : ℕ
  lastEtag : String
  lastUpdated : ℕ
  rules : Option (Origin β)
  cache : Option (SavedBinary β)
  requests : List (Request β)

inductive RuleSetStep (β : Type) where
  | start (stores restores : Bool) (initial : Option β)
  | close
  | incRef
  | decRef
  | cleanup
  | fetch (now : ℕ) (saves : Bool) (answer : Answer β)

namespace RemoteRuleSet

def initial : RemoteRuleSet β := ⟨false, false, 0, "", 0, none, none, []⟩

def restore (s : RemoteRuleSet β) (url : String) (stores restores : Bool) : RemoteRuleSet β :=
  match (if stores then s.cache else none) with
  | none => s
  | some savedSet =>
    if savedSet.urlHash ≠ "" ∧ savedSet.urlHash ≠ url then s
    else if restores then
      { s with
        rules := some savedSet.content
        lastUpdated := savedSet.lastUpdated
        lastEtag := savedSet.lastEtag }
    else s

def start (s : RemoteRuleSet β) (url : String) (stores restores : Bool) (initial : Option β) : RemoteRuleSet β :=
  let fresh : RemoteRuleSet β :=
    { s with running := true, starting := false, refs := 0, lastEtag := "", lastUpdated := 0, rules := none }
  let restored := fresh.restore url stores restores
  if restored.lastUpdated = 0 then
    match initial with
    | some content => { restored with rules := some ⟨content, ""⟩ }
    | none => { restored with starting := true }
  else restored

def fetch (s : RemoteRuleSet β) (configured : Option String) (url : String) (now : ℕ) (saves : Bool)
    (answer : Answer β) : RemoteRuleSet β :=
  let asked : RemoteRuleSet β := { s with
    requests := s.requests ++ [⟨ifNoneMatch configured s.lastEtag, s.rules, answer⟩] }
  -- without its first fetch the rule set does not start
  let failed : RemoteRuleSet β := { asked with running := !s.starting }
  let done : RemoteRuleSet β := { asked with starting := false, lastUpdated := now + 1 }
  match answer with
  | .error | .status _ | .broken => failed
  | .notModified _ =>
    { done with
      cache := if saves then
          s.cache.map fun savedSet => { savedSet with lastUpdated := now + 1, urlHash := url }
        else s.cache }
  | .ok body etag applies =>
    if applies then
      let lastEtag := if etag ≠ "" then etag else s.lastEtag
      { done with
        rules := some ⟨body, etag⟩
        lastEtag := lastEtag
        cache := if saves then some ⟨⟨body, etag⟩, now + 1, lastEtag, url⟩ else s.cache }
    else failed

def cleanup (s : RemoteRuleSet β) : RemoteRuleSet β := if s.refs = 0 then { s with rules := none } else s

def updateOnce (s : RemoteRuleSet β) (configured : Option String) (url : String) (now : ℕ) (saves : Bool)
    (answer : Answer β) : RemoteRuleSet β :=
  let fetched := s.fetch configured url now saves answer
  match answer with
  | .notModified _ | .ok _ _ true => fetched.cleanup
  | _ => fetched

/-- `none` for `decRef` is the panic "rule-set: negative refs". -/
def step (configured : Option String) (url : String) (s : RemoteRuleSet β) : RuleSetStep β → Option (RemoteRuleSet β)
  | .start stores restores initial => if s.running then none else some (s.start url stores restores initial)
  | .close => if s.running then some { s with running := false } else none
  | .incRef => some { s with refs := s.refs + 1 }
  | .decRef => if s.refs = 0 then none else some { s with refs := s.refs - 1 }
  | .cleanup => some s.cleanup
  | .fetch now saves answer =>
    if ¬s.running then none
    else if s.starting then some (s.fetch configured url now saves answer)
    else some (s.updateOnce configured url now saves answer)

def orderly (configured : Option String) (s : RemoteRuleSet β) (act : RuleSetStep β) : Bool :=
  configured.isNone && match act with
    | .cleanup => 0 < s.refs || s.lastEtag = ""
    | .fetch _ _ (.notModified _) => s.starting || 0 < s.refs || s.lastEtag = ""
    | .fetch _ _ (.ok _ etag true) =>
      if etag = "" then s.lastEtag = "" else s.starting || 0 < s.refs
    | _ => true

end RemoteRuleSet

/-- The servers give a body the tag `tagOf` has for it, if any, and answer that nothing was modified only to a request
with the tag of the body they have. -/
def Honest (tagOf : β → String) (requests : List (Request β)) : Prop :=
  ∀ r ∈ requests, match r.answer with
    | .ok body etag _ => etag = "" ∨ etag = tagOf body
    | .notModified current => r.sent = some (tagOf current)
    | _ => True

def Disciplined (requests : List (Request β)) : Prop :=
  ∀ r ∈ requests, (∀ e, r.sent = some e → ∃ body, r.applied = some ⟨body, e⟩) ∧
      ∀ tagOf : β → String, (∀ b c, tagOf b = tagOf c → b = c) → Honest tagOf requests →
        ∀ current, r.answer = .notModified current → ∃ e, r.applied = some ⟨current, e⟩

end Hydracore.Remote
