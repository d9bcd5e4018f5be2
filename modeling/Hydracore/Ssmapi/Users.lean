import Hydracore.Systems.Dicts

namespace Hydracore.Ssmapi

open Systems AList

/-- `server` has the users and passwords of the last successful `UpdateUsers`. -/
structure UserManager where
  usersMap : Dict String String
  server : Dict String String

inductive Request
  | add (username password : String)
  | update (username password : String)
  | delete (username : String)

inductive UserError
  | alreadyExists (username : String)
  | updateUsers
  deriving DecidableEq

namespace UserManager

def new : UserManager := ⟨∅, ∅⟩

variable (m : UserManager) (ok : Bool)

/-- `ok` says whether the server's `UpdateUsers` succeeds. -/
def postUpdate : UserManager × Option UserError :=
  if ok then ({ m with server := m.usersMap }, none) else (m, some .updateUsers)

def get (username : String) : Option String := m.usersMap.lookup username

/-- The entries of the map in an order that is not specified. -/
def list : List (String × String) := m.usersMap.entries.map fun e => (e.1, e.2)

def set (username : String) : Option String → UserManager
  | some password => { m with usersMap := m.usersMap.insert username password }
  | none => { m with usersMap := m.usersMap.erase username }

def handle : Request → UserManager × Option UserError
  | .add username password =>
    if (m.get username).isSome then (m, some (.alreadyExists username))
    else (m.set username (some password)).postUpdate ok
  | .update username password => (m.set username (some password)).postUpdate ok
  | .delete username => (m.set username none).postUpdate ok

def serve : List (Request × Bool) → UserManager := List.foldl (fun m call => (m.handle call.2 call.1).1) m

def Agrees : Prop :=
  ∀ username, m.get username = m.server.lookup username ∧
    ∀ password, (username, password) ∈ m.list ↔ m.server.lookup username = some password

/-- The request leaves the table as it is. -/
def idle : Request → Bool
  | .add username _ => (m.get username).isSome
  | .update username password => m.get username = some password
  | .delete username => m.get username = none

def settled (m : UserManager) : List (Request × Bool) → Bool
  | [] => true
  | (request, ok) :: calls => (ok || m.idle request) && settled (m.handle ok request).1 calls

variable {m ok}

theorem mem_list {username password : String} : (username, password) ∈ m.list ↔ m.get username = some password := by
  rw [list, List.mem_map]
  constructor
  · rintro ⟨e, he, heq⟩
    cases heq
    exact mem_lookup_iff.mpr he
  · exact fun h => ⟨⟨username, password⟩, mem_lookup_iff.mp h, rfl⟩

theorem agrees_iff : m.Agrees ↔ ∀ username, m.get username = m.server.lookup username :=
  ⟨fun h username => (h username).1, fun h username => ⟨h username, fun _ => by rw [mem_list, h username]⟩⟩

theorem get_set (username other : String) (password : Option String) :
    (m.set username password).get other = if other = username then password else m.get other := by
  by_cases hother : other = username
  · subst hother
    cases password <;> simp [get, set]
  · cases password <;> simp [get, set, hother, lookup_insert_ne, lookup_erase_ne]

theorem agrees_set (h : m.Agrees) (username : String) (password : Option String) :
    ((m.set username password).postUpdate ok).1.Agrees ↔ ok = true ∨ m.get username = password := by
  rw [agrees_iff] at h ⊢
  cases ok with
  | true => exact ⟨fun _ => .inl rfl, fun _ _ => rfl⟩
  | false =>
    have hserver : (m.set username password).server = m.server := by cases password <;> rfl
    simp only [postUpdate, Bool.false_eq_true, if_false, get_set, hserver, false_or]
    constructor
    · intro hset
      have hhere := hset username
      rw [if_pos rfl, ← h username] at hhere
      exact hhere.symm
    · rintro rfl other
      split_ifs with hother
      · rw [hother, h username]
      · exact h other

theorem agrees_handle (h : m.Agrees) (request : Request) :
    (m.handle ok request).1.Agrees ↔ (ok || m.idle request) = true := by
  cases request with
  | add username password =>
    rw [handle]
    split
    · next hthere => simp [idle, hthere, h]
    · next hnew =>
      rw [agrees_set h, idle]
      simp_all
  | update | delete => rw [handle, agrees_set h, idle, Bool.or_eq_true, decide_eq_true_iff]

theorem agrees_serve_iff (h : m.Agrees) (calls : List (Request × Bool)) :
    (∀ n, (m.serve (calls.take n)).Agrees) ↔ m.settled calls = true := by
  induction calls generalizing m with
  | nil => simpa [settled, serve] using h
  | cons call calls ih =>
    rw [settled, Bool.and_eq_true, ← agrees_handle h]
    constructor
    · intro hall
      have hnext : (m.handle call.2 call.1).1.Agrees := hall 1
      exact ⟨hnext, (ih hnext).mp fun n => hall (n + 1)⟩
    · rintro ⟨hnext, hrest⟩ n
      cases n with
      | zero => exact h
      | succ n => exact (ih hnext).mpr hrest n

theorem reported_iff_settled (calls : List (Request × Bool)) :
    (∀ n, (new.serve (calls.take n)).Agrees) ↔ new.settled calls = true :=
  agrees_serve_iff (agrees_iff.mpr fun _ => rfl) calls

theorem failed_add_kept : (new.serve [(.add "a" "p", false)]).get "a" = some "p" ∧
    (new.serve [(.add "a" "p", false)]).server.lookup "a" = none ∧
    ((new.serve [(.add "a" "p", false)]).handle true (.add "a" "p")).2 = some (.alreadyExists "a") ∧
    (new.serve [(.add "a" "p", false), (.add "b" "q", false)]).get "a" = some "p" := by
  decide +kernel

end UserManager

end Hydracore.Ssmapi
