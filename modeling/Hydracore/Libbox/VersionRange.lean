import Mathlib.Data.Int.Notation
import Mathlib.Data.List.Basic

namespace Hydracore.Libbox

open List

abbrev Text := List Char

structure Semver where
  isValid : Text → Bool
  compare : Text → Text → ℤ
  exists_digit : ∀ v, isValid v = true → ∃ d rest, v = 'v' :: d :: rest ∧ d.isDigit = true

def isSpace (c : Char) : Bool :=
  c.toNat ∈ [0x09, 0x0A, 0x0B, 0x0C, 0x0D, 0x20, 0x85, 0xA0, 0x1680, 0x2028, 0x2029, 0x202F, 0x205F, 0x3000] ∨
    0x2000 ≤ c.toNat ∧ c.toNat ≤ 0x200A

def trimSpace (text : Text) : Text := ((text.dropWhile isSpace).reverse.dropWhile isSpace).reverse

def fields (text : Text) : List Text := (text.splitOnP isSpace).filter (· ≠ [])

def normalizeSemver (version : Text) : Text :=
  let trimmedVersion := trimSpace version
  if ['v'].isPrefixOf trimmedVersion then trimmedVersion else 'v' :: trimmedVersion

inductive Operator
  | eq
  | gt
  | ge
  | lt
  | le

def Operator.text : Operator → Text
  | .eq => ['=']
  | .gt => ['>']
  | .ge => ['>', '=']
  | .lt => ['<']
  | .le => ['<', '=']

def Operator.matches : Operator → ℤ → Bool
  | .eq, comparison => comparison = 0
  | .gt, comparison => comparison > 0
  | .ge, comparison => comparison ≥ 0
  | .lt, comparison => comparison < 0
  | .le, comparison => comparison ≤ 0

def splitOperator (clause : Text) : Operator × Text :=
  match [Operator.ge, .le, .gt, .lt, .eq].find? fun candidate => candidate.text.isPrefixOf clause with
  | some candidate => (candidate, clause.drop candidate.text.length)
  | none => (.eq, clause)

def evaluateClauses (lib : Semver) (normalizedVersion : Text) : List Text → Bool × Bool
  | [] => (true, true)
  | clause :: rest =>
    let normalizedRequired := normalizeSemver (splitOperator clause).2
    if (splitOperator clause).2 = [] ∨ ¬ lib.isValid normalizedRequired then (false, false)
    else if ¬ (splitOperator clause).1.matches (lib.compare normalizedVersion normalizedRequired) then (false, true)
    else evaluateClauses lib normalizedVersion rest

def hydraVersionMatchesRange (lib : Semver) (version versionRange : Text) : Bool × Bool :=
  let normalizedVersion := normalizeSemver version
  if ¬ lib.isValid normalizedVersion then (false, false)
  else
    let clauses := fields (versionRange.map fun c => if c = ',' then ' ' else c)
    if clauses.length = 0 ∨ clauses.length > 8 then (false, false)
    else evaluateClauses lib normalizedVersion clauses

section Spec

variable (lib : Semver)

def IsVersion (text : Text) : Prop := lib.isValid (normalizeSemver text) = true

instance (text : Text) : Decidable (IsVersion lib text) := inferInstanceAs (Decidable (_ = true))

def Reads (clause : Text) (operator : Operator) (required : Text) : Prop :=
  IsVersion lib required ∧ (clause = operator.text ++ required ∨ operator = .eq ∧ clause = required)

def WellFormed (clause : Text) : Prop := ∃ operator required, Reads lib clause operator required

def Holds (version clause : Text) : Prop :=
  ∃ operator required, Reads lib clause operator required ∧
    operator.matches (lib.compare (normalizeSemver version) (normalizeSemver required)) = true

def clausesOf (versionRange : Text) : List Text :=
  (versionRange.splitOnP fun c => c = ',' || isSpace c).filter (· ≠ [])

def Malformed (versionRange : Text) : Prop :=
  clausesOf versionRange = [] ∨ 8 < (clausesOf versionRange).length ∨
    ∃ clause ∈ clausesOf versionRange, ¬ WellFormed lib clause

def EvaluatesExactly (version versionRange : Text) : Prop :=
  ((hydraVersionMatchesRange lib version versionRange).2 = false ↔ Malformed lib versionRange) ∧
    (¬ Malformed lib versionRange → ((hydraVersionMatchesRange lib version versionRange).1 = true ↔
      ∀ clause ∈ clausesOf versionRange, Holds lib version clause))

end Spec

theorem splitOnP_commas (text : Text) :
    (text.map fun c => if c = ',' then ' ' else c).splitOnP isSpace = text.splitOnP fun c => c = ',' || isSpace c := by
  induction text with
  | nil => simp
  | cons c text ih =>
    rw [map_cons, splitOnP_cons_eq_if_modifyHead, splitOnP_cons_eq_if_modifyHead, ih]
    by_cases hc : c = ','
    · subst hc
      rfl
    · simp [hc]

theorem fields_commas (text : Text) : fields (text.map fun c => if c = ',' then ' ' else c) = clausesOf text := by
  rw [fields, splitOnP_commas, clausesOf]

theorem exists_trimSpace_cons {c : Char} (hc : isSpace c = false) (text : Text) :
    ∃ rest, trimSpace (c :: text) = c :: rest := by
  rw [trimSpace, dropWhile_cons_of_neg (by simp [hc]), reverse_cons, dropWhile_append]
  split_ifs with h
  · exact ⟨[], by simp [hc]⟩
  · exact ⟨_, reverse_concat⟩

section Clauses

variable {lib : Semver} {version clause required : Text}

theorem not_isVersion_nil : ¬ IsVersion lib [] := by
  intro h
  obtain ⟨d, rest, heq, -⟩ := lib.exists_digit _ h
  cases heq

theorem not_isVersion_cons {c : Char} (hc : c = '=' ∨ c = '>' ∨ c = '<') : ¬ IsVersion lib (c :: required) := by
  intro h
  have hspace : isSpace c = false := by rcases hc with rfl | rfl | rfl <;> decide
  have hv : ('v' == c) = false := by rcases hc with rfl | rfl | rfl <;> decide
  have hdigit : c.isDigit = false := by rcases hc with rfl | rfl | rfl <;> decide
  obtain ⟨trimmed, htrim⟩ := exists_trimSpace_cons hspace required
  have hnorm : normalizeSemver (c :: required) = 'v' :: c :: trimmed := by
    simp [normalizeSemver, htrim, isPrefixOf, hv]
  obtain ⟨d, rest, heq, hd⟩ := lib.exists_digit _ h
  rw [hnorm] at heq
  obtain ⟨rfl, -⟩ := cons.inj (cons.inj heq).2
  rw [hdigit] at hd
  cases hd

theorem not_isPrefixOf_of_isVersion (h : IsVersion lib required) (c : Char) (hc : c = '=' ∨ c = '>' ∨ c = '<')
    (more : Text) : (c :: more).isPrefixOf required = false := by
  cases required with
  | nil => rfl
  | cons d rest =>
    rw [isPrefixOf, Bool.and_eq_false_iff, beq_eq_false_iff_ne]
    left
    rintro rfl
    exact not_isVersion_cons hc h

theorem splitOperator_of_reads {operator : Operator} (h : Reads lib clause operator required) :
    splitOperator clause = (operator, required) := by
  obtain ⟨hversion, rfl | ⟨rfl, rfl⟩⟩ := h
  · have heq := not_isPrefixOf_of_isVersion hversion '=' (by simp) []
    cases operator <;> simp [splitOperator, Operator.text, isPrefixOf, heq]
  · have hnone := not_isPrefixOf_of_isVersion hversion
    simp [splitOperator, Operator.text, hnone]

theorem splitOperator_append (clause : Text) : clause = (splitOperator clause).1.text ++ (splitOperator clause).2 ∨
      (splitOperator clause).1 = .eq ∧ clause = (splitOperator clause).2 := by
  unfold splitOperator
  split
  · rename_i candidate hfound
    have hstarts := find?_some hfound
    obtain ⟨rest, rfl⟩ := isPrefixOf_iff_prefix.mp hstarts
    exact .inl (by simp)
  · exact .inr ⟨rfl, rfl⟩

theorem wellFormed_iff : WellFormed lib clause ↔ IsVersion lib (splitOperator clause).2 := by
  constructor
  · rintro ⟨operator, required, h⟩
    rw [splitOperator_of_reads h]
    exact h.1
  · exact fun h => ⟨_, _, h, splitOperator_append clause⟩

theorem holds_iff : Holds lib version clause ↔ IsVersion lib (splitOperator clause).2 ∧
    (splitOperator clause).1.matches
      (lib.compare (normalizeSemver version) (normalizeSemver (splitOperator clause).2)) = true := by
  constructor
  · rintro ⟨operator, required, h, hmatches⟩
    rw [splitOperator_of_reads h]
    exact ⟨h.1, hmatches⟩
  · rintro ⟨hversion, hmatches⟩
    exact ⟨_, _, ⟨hversion, splitOperator_append clause⟩, hmatches⟩

theorem evaluateClauses_cons (lib : Semver) (version clause : Text) (rest : List Text) :
    (¬ WellFormed lib clause ∧ evaluateClauses lib (normalizeSemver version) (clause :: rest) = (false, false)) ∨
    (WellFormed lib clause ∧ ¬ Holds lib version clause ∧
      evaluateClauses lib (normalizeSemver version) (clause :: rest) = (false, true)) ∨
    (Holds lib version clause ∧ evaluateClauses lib (normalizeSemver version) (clause :: rest) =
      evaluateClauses lib (normalizeSemver version) rest) := by
  rw [wellFormed_iff, holds_iff, evaluateClauses]
  split_ifs with hbad hmatches
  · refine .inl ⟨fun hversion => ?_, rfl⟩
    rcases hbad with hnil | hinvalid
    · rw [hnil] at hversion
      exact not_isVersion_nil hversion
    · exact hinvalid hversion
  · have hversion := not_not.mp (not_or.mp hbad).2
    exact .inr (.inr ⟨⟨hversion, hmatches⟩, rfl⟩)
  · have hversion := not_not.mp (not_or.mp hbad).2
    exact .inr (.inl ⟨hversion, fun h => hmatches h.2, rfl⟩)

theorem Holds.wellFormed (h : Holds lib version clause) : WellFormed lib clause :=
  wellFormed_iff.mpr (holds_iff.mp h).1

def Exposed (lib : Semver) (version : Text) (clauses : List Text) : Prop :=
  ∃ before clause after, clauses = before ++ clause :: after ∧ ¬ WellFormed lib clause ∧
    ∀ c ∈ before, Holds lib version c

theorem exposed_cons (h : WellFormed lib clause) (rest : List Text) :
    Exposed lib version (clause :: rest) ↔ Holds lib version clause ∧ Exposed lib version rest := by
  constructor
  · rintro ⟨before, c, after, heq, hc, hbefore⟩
    cases before with
    | nil =>
      obtain ⟨rfl, rfl⟩ := cons.inj heq
      exact absurd h hc
    | cons first before =>
      obtain ⟨rfl, rfl⟩ := cons.inj heq
      obtain ⟨hfirst, hbefore⟩ := forall_mem_cons.mp hbefore
      exact ⟨hfirst, before, c, after, rfl, hc, hbefore⟩
  · rintro ⟨hclause, before, c, after, rfl, hc, hbefore⟩
    exact ⟨clause :: before, c, after, rfl, hc, forall_mem_cons.mpr ⟨hclause, hbefore⟩⟩

theorem evaluateClauses_invalid_iff (clauses : List Text) :
    (evaluateClauses lib (normalizeSemver version) clauses).2 = false ↔ Exposed lib version clauses := by
  induction clauses with
  | nil => simp [evaluateClauses, Exposed]
  | cons clause rest ih =>
    rcases evaluateClauses_cons lib version clause rest with
      ⟨hbad, heval⟩ | ⟨hwell, hnot, heval⟩ | ⟨hholds, heval⟩
    · rw [heval]
      exact iff_of_true rfl ⟨[], clause, rest, rfl, hbad, forall_mem_nil _⟩
    · rw [heval, exposed_cons hwell]
      exact iff_of_false Bool.noConfusion fun h => hnot h.1
    · rw [heval, exposed_cons hholds.wellFormed, ih, and_iff_right hholds]

theorem evaluateClauses_matches_iff (clauses : List Text) :
    (evaluateClauses lib (normalizeSemver version) clauses).1 = true ↔ ∀ c ∈ clauses, Holds lib version c := by
  induction clauses with
  | nil => simp [evaluateClauses]
  | cons clause rest ih =>
    rw [forall_mem_cons]
    rcases evaluateClauses_cons lib version clause rest with
      ⟨hbad, heval⟩ | ⟨-, hnot, heval⟩ | ⟨hholds, heval⟩
    · rw [heval]
      exact iff_of_false Bool.noConfusion fun h => hbad h.1.wellFormed
    · rw [heval]
      exact iff_of_false Bool.noConfusion fun h => hnot h.1
    · rw [heval, ih, and_iff_right hholds]

end Clauses

theorem hydraVersionMatchesRange_eq {lib : Semver} {version : Text} (hversion : IsVersion lib version)
    (versionRange : Text) : hydraVersionMatchesRange lib version versionRange =
      if (clausesOf versionRange).length = 0 ∨ (clausesOf versionRange).length > 8 then (false, false)
      else evaluateClauses lib (normalizeSemver version) (clausesOf versionRange) := by
  have hvalid : ¬ ¬ lib.isValid (normalizeSemver version) = true := not_not.mpr hversion
  unfold hydraVersionMatchesRange
  rw [if_neg hvalid, fields_commas]

theorem version_range_exact_iff (lib : Semver) {version : Text} (hversion : IsVersion lib version)
    (versionRange : Text) : EvaluatesExactly lib version versionRange ↔
      (0 < (clausesOf versionRange).length → (clausesOf versionRange).length ≤ 8 →
        (∃ clause ∈ clausesOf versionRange, ¬ WellFormed lib clause) →
          ∃ before clause after, clausesOf versionRange = before ++ clause :: after ∧ ¬ WellFormed lib clause ∧
            ∀ c ∈ before, Holds lib version c) := by
  rw [EvaluatesExactly, hydraVersionMatchesRange_eq hversion]
  by_cases hcount : (clausesOf versionRange).length = 0 ∨ (clausesOf versionRange).length > 8
  · have hmalformed : Malformed lib versionRange := by
      refine hcount.imp List.length_eq_zero_iff.mp fun h => .inl h
    rw [if_pos hcount]
    refine iff_of_true ⟨iff_of_true rfl hmalformed, fun h => absurd hmalformed h⟩ fun hpos hle => ?_
    omega
  · have hmalformed : Malformed lib versionRange ↔ ∃ clause ∈ clausesOf versionRange, ¬ WellFormed lib clause := by
      rw [Malformed, ← List.length_eq_zero_iff, ← or_assoc, or_iff_right hcount]
    rw [if_neg hcount, evaluateClauses_invalid_iff, evaluateClauses_matches_iff, hmalformed]
    constructor
    · intro h _ _ hbad
      exact h.1.mpr hbad
    · intro h
      refine ⟨⟨?_, h (by omega) (by omega)⟩, fun _ => Iff.rfl⟩
      rintro ⟨before, clause, after, heq, hbad, -⟩
      rw [heq]
      exact ⟨clause, List.mem_append_right before List.mem_cons_self, hbad⟩

def digits : Semver where
  isValid
    | ['v', d] => d.isDigit
    | _ => false
  compare v w := ((v.getD 1 '0').toNat : ℤ) - (w.getD 1 '0').toNat
  exists_digit v h := by
    split at h
    · exact ⟨_, [], rfl, h⟩
    · cases h

theorem version_range_exact_digits : EvaluatesExactly digits "1".toList ">=1, <2".toList := by
  refine (version_range_exact_iff digits (by decide) _).mpr fun _ _ hbad => ?_
  obtain ⟨clause, hmem, hbad⟩ := hbad
  have hversions : ∀ clause ∈ clausesOf ">=1, <2".toList, IsVersion digits (splitOperator clause).2 := by decide
  exact absurd (wellFormed_iff.mpr (hversions clause hmem)) hbad

theorem malformed_range_unreported : hydraVersionMatchesRange digits "1".toList ">=2,x".toList = (false, true) ∧
      hydraVersionMatchesRange digits "1".toList "x,>=2".toList = (false, false) ∧
      hydraVersionMatchesRange digits "2".toList ">=2,x".toList = (false, false) ∧
      Malformed digits ">=2,x".toList := by
  refine ⟨by decide, rfl, rfl, .inr (.inr ⟨"x".toList, by decide, ?_⟩)⟩
  rw [wellFormed_iff]
  decide

end Hydracore.Libbox
