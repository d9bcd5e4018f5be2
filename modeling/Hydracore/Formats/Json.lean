import Mathlib.Data.List.Basic

namespace Hydracore.Formats

open List

inductive Json
  | null
  | bool (b : Bool)
  | number (literal : String)
  | string (s : String)
  | array (items : List Json)
  | object (entries : List (String × Json))

namespace Json

mutual

def anyKey (p : String → Bool) : Json → Bool
  | .object entries => anyKeyEntries p entries
  | .array items => anyKeyItems p items
  | _ => false

def anyKeyEntries (p : String → Bool) : List (String × Json) → Bool
  | [] => false
  | (key, value) :: rest => p key || anyKey p value || anyKeyEntries p rest

def anyKeyItems (p : String → Bool) : List Json → Bool
  | [] => false
  | value :: rest => anyKey p value || anyKeyItems p rest

end

theorem induction {motive : Json → Prop} (null : motive .null) (bool : ∀ b, motive (.bool b))
    (number : ∀ literal, motive (.number literal)) (string : ∀ s, motive (.string s))
    (array : ∀ items, (∀ v ∈ items, motive v) → motive (.array items))
    (object : ∀ entries, (∀ e ∈ entries, motive e.2) → motive (.object entries)) (v : Json) : motive v := by
  refine @Json.rec motive (fun items => ∀ v ∈ items, motive v) (fun entries => ∀ e ∈ entries, motive e.2)
    (fun e => motive e.2) null bool number string array object ?_ ?_ ?_ ?_ ?_ v
  · exact nofun
  · exact fun head tail hhead htail => forall_mem_cons.mpr ⟨hhead, htail⟩
  · exact nofun
  · exact fun head tail hhead htail => forall_mem_cons.mpr ⟨hhead, htail⟩
  · exact fun _ _ h => h

theorem anyKey_array (p : String → Bool) (items : List Json) : anyKey p (.array items) = items.any (anyKey p) := by
  rw [anyKey]
  induction items with
  | nil => rfl
  | cons v rest ih => rw [anyKeyItems, ih, any_cons]

theorem anyKey_object (p : String → Bool) (entries : List (String × Json)) :
    anyKey p (.object entries) = entries.any fun e => p e.1 || anyKey p e.2 := by
  rw [anyKey]
  induction entries with
  | nil => rfl
  | cons e rest ih => rw [anyKeyEntries, ih, any_cons]

theorem anyKey_or (p q : String → Bool) (v : Json) :
    anyKey (fun key => p key || q key) v = true ↔ anyKey p v = true ∨ anyKey q v = true := by
  induction v using Json.induction with
  | null | bool b | number literal | string s => simp [anyKey]
  | array items ih =>
    simp only [anyKey_array, any_eq_true, ← exists_or, ← and_or_left]
    exact exists_congr fun v => and_congr_right (ih v)
  | object entries ih =>
    simp only [anyKey_object, any_eq_true, ← exists_or, ← and_or_left, Bool.or_eq_true]
    refine exists_congr fun e => and_congr_right fun he => ?_
    rw [ih e he]
    tauto

end Json

def lastValue (p : String → Bool) (entries : List (String × Json)) : Option Json :=
  (entries.filter fun e => p e.1).getLast?.map Prod.snd

def foldRune (c : Char) : Char :=
  if 'a' ≤ c ∧ c ≤ 'z' then Char.ofNat (c.toNat - 32)
  else if c = 'ſ' then 'S'
  else if c = 'K' then 'K'
  else c

def foldName (name : String) : List Char := name.toList.map foldRune

def binds (name key : String) : Bool := key = name ∨ foldName key = foldName name

def respells (name key : String) : Bool := key ≠ name ∧ foldName key = foldName name

theorem binds_eq (name key : String) : binds name key = (decide (key = name) || respells name key) := by
  by_cases h : key = name
  · simp [binds, h]
  · simp [binds, respells, h]

example : binds "routing_mark" "Routing_MarK" = true ∧ binds "netns" "net_ns" = false := by decide +kernel

end Hydracore.Formats
