import Hydracore.Systems.Runs
import Hydracore.Systems.Tasks
import Hydracore.Traffic.Limiter

namespace Hydracore.Traffic

inductive TrafficStrategy where
  | bypass
  | global (object : ℕ)

def createStrategy (object : ℕ) (strategy mode : String) : Except String TrafficStrategy :=
  if strategy = "bypass" then .ok .bypass
  else if strategy = "global" ∨ strategy = "" then
    if mode = "download" ∨ mode = "upload" ∨ mode = "bidirectional" then .ok (.global object)
    else .error ("mode not found: " ++ mode)
  else .error ("strategy not found: " ++ strategy)

/-- `UpdateRemainingTraffic` under way: what it took from which limiter, and the manager's answer. -/
structure Reporting where
  object : ℕ
  id : ℕ
  amount : UInt64
  answer : Option (Except String UInt64)

/-- `TrafficLimiterStrategyManager`. The limiters it has made keep their positions; `report` is there while the
reporting loop holds the mutex for one of them. -/
structure Node where
  objects : List TrafficLimiter
  limiters : String → Option ℕ
  strategiesMap : String → Option TrafficStrategy
  report : Option Reporting

namespace Node

def updateTrafficLimiter (node : Node) (limiter : LimiterRecord) : Node :=
  match createStrategy node.objects.length limiter.strategy limiter.mode with
  | .error _ => node
  | .ok strategy =>
    { node with
      objects := node.objects ++ [.newTrafficLimiter limiter]
      limiters := Function.update node.limiters limiter.username (some node.objects.length)
      strategiesMap := Function.update node.strategiesMap limiter.username (some strategy) }

def updateTrafficLimiters (node : Node) (limiters : List LimiterRecord) : Node :=
  limiters.foldl updateTrafficLimiter { node with strategiesMap := fun _ => none }

def deleteTrafficLimiter (node : Node) (username : String) : Node :=
  { node with strategiesMap := Function.update node.strategiesMap username none }

def registered (node : Node) (object : ℕ) : Bool :=
  node.objects[object]?.any fun l => node.limiters l.limiter.username = some object

end Node

structure TrafficUsage where
  used : UInt64
  quota : UInt64

structure Manager where
  trafficUsage : ℕ → Option TrafficUsage
  repository : ℕ → UInt64

def Manager.load (rows : ℕ → Option TrafficUsage) : Manager where
  trafficUsage := rows
  repository := fun id => ((rows id).map TrafficUsage.used).getD 0

def Manager.addTrafficUsage (m : Manager) (limiterId : ℕ) (n : UInt64) (failure : Option String) :
    Manager × Except String UInt64 :=
  match m.trafficUsage limiterId with
  | none => (m, .error "limiter not found")
  | some stat =>
    let used := if stat.used + n > stat.quota then stat.quota else stat.used + n
    let trafficUsage := Function.update m.trafficUsage limiterId (some { stat with used := used })
    match failure with
    | some err => ({ m with trafficUsage := trafficUsage }, .error err)
    | none => (⟨trafficUsage, Function.update m.repository limiterId used⟩, .ok used)

structure Fleet where
  manager : Manager
  nodes : List Node
  charged : ℕ → ℕ

namespace Fleet

inductive Step where
  | can (node object : ℕ) (n : UInt64)
  | add (node object : ℕ) (n : UInt64)
  | take (node : ℕ) (username : String)
  | addTrafficUsage (node : ℕ) (failure : Option String)
  | settle (node : ℕ)
  | updateTrafficLimiter (node : ℕ) (limiter : LimiterRecord)
  | updateTrafficLimiters (node : ℕ) (limiters : List LimiterRecord)
  | deleteTrafficLimiter (node : ℕ) (username : String)

def setNode (s : Fleet) (i : ℕ) (node : Node) : Fleet := { s with nodes := s.nodes.set i node }

def charge (s : Fleet) (i object : ℕ) (call : TrafficLimiter → TrafficLimiter) : Option Fleet :=
  s.nodes[i]?.bind fun node => node.objects[object]?.map fun l =>
    { s.setNode i { node with objects := node.objects.set object (call l) } with
      charged := Function.update s.charged l.limiter.id (s.charged l.limiter.id + l.recorded (call l)) }

def take (node : Node) (username : String) : Option Node :=
  if node.report.isSome then none
  else (node.limiters username).bind fun object => node.objects[object]?.bind fun l =>
    if l.new = 0 then none
    else some { node with
      objects := node.objects.set object l.take
      report := some ⟨object, l.limiter.id, l.new, none⟩ }

def settle (node : Node) : Option Node :=
  node.report.bind fun report => report.answer.bind fun answer => node.objects[report.object]?.map fun l =>
    { node with objects := node.objects.set report.object (l.settle report.amount answer), report := none }

def serve (s : Fleet) (i : ℕ) (failure : Option String) : Option Fleet :=
  s.nodes[i]?.bind fun node => node.report.bind fun report =>
    if report.answer.isSome then none
    else
      let served := s.manager.addTrafficUsage report.id report.amount failure
      some { s.setNode i { node with report := some { report with answer := some served.2 } } with
        manager := served.1 }

def update (node : Node) (f : Node → Node) : Option Node := if node.report.isSome then none else some (f node)

def step (s : Fleet) : Step → Option Fleet
  | .can i object n => s.charge i object fun l => (l.can n).1
  | .add i object n => s.charge i object fun l => (l.add n).1
  | .take i username => s.nodes[i]?.bind fun node => (take node username).map (s.setNode i)
  | .addTrafficUsage i failure => s.serve i failure
  | .settle i => s.nodes[i]?.bind fun node => (settle node).map (s.setNode i)
  | .updateTrafficLimiter i limiter =>
    s.nodes[i]?.bind fun node => (update node (·.updateTrafficLimiter limiter)).map (s.setNode i)
  | .updateTrafficLimiters i limiters =>
    s.nodes[i]?.bind fun node => (update node (·.updateTrafficLimiters limiters)).map (s.setNode i)
  | .deleteTrafficLimiter i username =>
    s.nodes[i]?.bind fun node => (update node (·.deleteTrafficLimiter username)).map (s.setNode i)

def start (rows : ℕ → Option TrafficUsage) (nodes : ℕ) : Fleet where
  manager := .load rows
  nodes := List.replicate nodes ⟨[], fun _ => none, fun _ => none, none⟩
  charged := fun _ => 0

end Fleet

end Hydracore.Traffic
