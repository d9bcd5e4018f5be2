import Hydracore.Bond.Assembly
import Mathlib.Algebra.BigOperators.Group.List.Basic

namespace Hydracore.Bond

open Formats

def splitFrom (number remaining : ℤ) : List UInt8 → List ℤ
  | [] => []
  | [_] => [remaining]
  | ratio :: ratios =>
    number * ratio.toNat / 100 :: splitFrom number (remaining - number * ratio.toNat / 100) ratios

def splitByRatios (number : ℤ) (ratios : List UInt8) : List ℤ := splitFrom number number ratios

def totalRatio (ratios : List UInt8) : UInt8 := ratios.foldl (· + ·) 0

structure BondOutbound (ω : Type) where
  outbound : ω
  downloadRatio : UInt8
  uploadRatio : UInt8
  count : UInt8

structure Outbound (κ : Type) where
  outbounds : List κ
  downloadRatios : List UInt8
  uploadRatios : List UInt8

inductive OutboundError where
  | create
  | invalidRatios

variable {ω κ α : Type}

def repeated (options : List (BondOutbound ω)) : List (BondOutbound ω) :=
  options.flatMap fun o => List.replicate (if o.count = 0 then 1 else o.count.toNat) o

def newOutbound (create : ω → Option κ) (options : List (BondOutbound ω)) : Except OutboundError (Outbound κ) :=
  match (repeated options).mapM fun o => create o.outbound with
  | none => .error .create
  | some outbounds =>
    let downloadRatios := (repeated options).map BondOutbound.downloadRatio
    let uploadRatios := (repeated options).map BondOutbound.uploadRatio
    if totalRatio downloadRatios ≠ 100 ∨ totalRatio uploadRatios ≠ 100 then .error .invalidRatios
    else .ok ⟨outbounds, downloadRatios, uploadRatios⟩

def Outbound.request (outbound : Outbound κ) (uuid : UUID) (destination : α) (i : ℕ) : ℕ × Request α :=
  (i, ⟨uuid, UInt8.ofNat i, UInt8.ofNat outbound.outbounds.length, outbound.uploadRatios.getD i 0,
    outbound.downloadRatios.getD i 0, destination⟩)

def Outbound.requests (outbound : Outbound κ) (uuid : UUID) (destination : α) : List (ℕ × Request α) :=
  (List.range outbound.outbounds.length).map (outbound.request uuid destination)

def Outbound.dial (outbound : Outbound κ) (serializer : AddressSerializer α) (uuid : UUID) (destination : α) :
    Option (List (ℕ × Bytes)) :=
  (outbound.requests uuid destination).mapM fun sent => (writeRequest serializer sent.2).map (sent.1, ·)

def collectAll (ratioConns : RatioConns) : List (ℕ × Request α) → Option BondedConn
  | [] => none
  | (conn, request) :: arrivals =>
    match collect ratioConns conn request with
    | .waiting ratioConns => collectAll ratioConns arrivals
    | .bonded bondedConn => some bondedConn
    | .invalid _ | .panicked => none

def serverConn (serializer : AddressSerializer α) (arrivals : List (ℕ × Bytes)) : Option BondedConn :=
  (arrivals.mapM fun arrival =>
    (readRequest serializer arrival.2).toOption.map fun read => (arrival.1, read.1)).bind (collectAll ∅)

end Hydracore.Bond
