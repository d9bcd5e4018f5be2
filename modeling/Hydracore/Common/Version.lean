import Mathlib.Order.Lattice

namespace Hydracore.Common

structure Version where
  major : ℤ
  minor : ℤ
  patch : ℤ
  commit : List Char
  preReleaseIdentifier : List Char
  preReleaseVersion : ℤ
  deriving DecidableEq

/-- Beyond 64 bits `ParseUint` stops, whatever follows. -/
def parseUint (n : ℕ) : List Char → ℕ
  | [] => n
  | c :: rest =>
    if ¬ c.isDigit then 0
    else if 18446744073709551616 ≤ n * 10 + (c.toNat - 48) then 18446744073709551615
    else parseUint (n * 10 + (c.toNat - 48)) rest

/-- The number `Atoi` returns, also with an error. -/
def atoi : List Char → ℤ
  | '-' :: text => -min (parseUint 0 text : ℤ) 9223372036854775808
  | '+' :: text | text => min (parseUint 0 text : ℤ) 9223372036854775807

def parsePreReleaseIdentifier (identifier : List Char) : ℕ :=
  if "rc".toList.isPrefixOf identifier then 1
  else if "beta".toList.isPrefixOf identifier then 2
  else if "alpha".toList.isPrefixOf identifier then 3
  else 0

namespace Version

/-- The number at place `i` of a text split at the dots. -/
def number (text : List Char) (i : ℕ) : ℤ := ((text.splitOn '.')[i]?.map atoi).getD 0

def parse (versionName : List Char) : Version :=
  let parts := (if versionName.head? = some 'v' then versionName.tail else versionName).splitOn '-'
  let name := parts.headD []
  let version : Version := ⟨number name 0, number name 1, number name 2, [], [], 0⟩
  match parts[1]? with
  | none => version
  | some identifier =>
    if '.' ∈ identifier then { version with
      preReleaseIdentifier := (identifier.splitOn '.').headD []
      preReleaseVersion := number identifier 1 }
    else if "alpha".toList.isPrefixOf identifier then { version with
      preReleaseIdentifier := "alpha".toList
      preReleaseVersion := atoi (identifier.drop 5) }
    else if "beta".toList.isPrefixOf identifier then { version with
      preReleaseIdentifier := "beta".toList
      preReleaseVersion := atoi (identifier.drop 4) }
    else { version with commit := identifier }

/-- One of the comparisons of `GreaterThan`, which only goes on if the numbers are equal. -/
def compareFirst (x y : ℤ) (rest : Bool) : Bool := if x > y then true else if x < y then false else rest

/-- The comparison of identifiers `p` and `q` with versions `m` and `n`. -/
def comparePreRelease (p q : List Char) (m n : ℤ) : Bool :=
  if p = [] ∧ q ≠ [] then true
  else if p ≠ [] ∧ q = [] then false
  else if p ≠ [] ∧ q ≠ [] then
    let rest := decide (parsePreReleaseIdentifier p < parsePreReleaseIdentifier q)
    if p = q then compareFirst m n rest else rest
  else false

variable (v w : Version)

def greaterThan : Bool :=
  compareFirst v.major w.major <| compareFirst v.minor w.minor <| compareFirst v.patch w.patch <|
    comparePreRelease v.preReleaseIdentifier w.preReleaseIdentifier v.preReleaseVersion w.preReleaseVersion

def greaterThanOrEqual : Bool := v = w || v.greaterThan w

def lessThanOrEqual : Bool := v = w || w.greaterThan v

def lessThan : Bool := !v.greaterThanOrEqual w

def Ahead : Prop :=
  w.preReleaseIdentifier ≠ [] ∧ (v.preReleaseIdentifier = [] ∨
    v.preReleaseIdentifier = w.preReleaseIdentifier ∧ w.preReleaseVersion < v.preReleaseVersion ∨
    parsePreReleaseIdentifier v.preReleaseIdentifier < parsePreReleaseIdentifier w.preReleaseIdentifier)

/-- The fields that `GreaterThan` compares tell the two apart. -/
def Apart : Prop := v.major ≠ w.major ∨ v.minor ≠ w.minor ∨ v.patch ≠ w.patch ∨ Ahead v w ∨ Ahead w v

structure Ordered (u : Version) : Prop where
  irreflexive : v.lessThan v = false
  asymmetric : v.lessThan w = true → w.lessThan v = false
  transitive : v.lessThan w = true → w.lessThan u = true → v.lessThan u = true
  exactlyOne : [v.lessThan w, w.lessThan v, v.lessThanOrEqual w && w.lessThanOrEqual v].count true = 1
  greater : v.greaterThan w = w.lessThan v

variable {u v w : Version}

theorem compareFirst_eq_true {x y : ℤ} {rest : Bool} :
    compareFirst x y rest = true ↔ y < x ∨ x = y ∧ rest = true := by
  unfold compareFirst
  grind

theorem greaterThan_iff : v.greaterThan w = true ↔ w.major < v.major ∨ v.major = w.major ∧ (w.minor < v.minor ∨
    v.minor = w.minor ∧ (w.patch < v.patch ∨ v.patch = w.patch ∧ Ahead v w)) := by
  have hpre : comparePreRelease v.preReleaseIdentifier w.preReleaseIdentifier v.preReleaseVersion
      w.preReleaseVersion = true ↔ Ahead v w := by
    simp only [comparePreRelease, Ahead]
    grind [compareFirst]
  simp only [greaterThan, compareFirst_eq_true, hpre]

theorem lex_trans {x y z : ℤ} {p q r : Prop} (h : p → q → r) (hxy : y < x ∨ x = y ∧ p) (hyz : z < y ∨ y = z ∧ q) :
    z < x ∨ x = z ∧ r := by
  grind

theorem Ahead.trans (hvw : Ahead v w) (hwu : Ahead w u) : Ahead v u := by
  unfold Ahead at *
  grind

theorem greaterThan_trans (hvw : v.greaterThan w = true) (hwu : w.greaterThan u = true) : v.greaterThan u = true := by
  rw [greaterThan_iff] at *
  exact lex_trans (lex_trans (lex_trans .trans)) hvw hwu

theorem greaterThan_irrefl : v.greaterThan v = false := by
  rw [← Bool.not_eq_true, greaterThan_iff]
  simp [Ahead]

theorem apart_iff : Apart v w ↔ v.greaterThan w = true ∨ w.greaterThan v = true := by
  rw [greaterThan_iff, greaterThan_iff, Apart]
  grind

theorem of_greaterThan (h : v.greaterThan w = true) : w.greaterThan v = false ∧ v.lessThan w = false ∧
    w.lessThan v = true ∧ v.lessThanOrEqual w = false := by
  have hasymm : w.greaterThan v = false := by
    by_contra hswap
    exact absurd (greaterThan_trans h (Bool.eq_true_of_not_eq_false hswap)) (by simp [greaterThan_irrefl])
  have hne : v ≠ w := by
    rintro rfl
    simp [greaterThan_irrefl] at h
  simp [lessThan, greaterThanOrEqual, lessThanOrEqual, h, hasymm, hne, hne.symm]

theorem not_lessThan_self : v.lessThan v = false := by
  simp [lessThan, greaterThanOrEqual]

theorem lessThan_eq (h : v = w ∨ Apart v w) : v.lessThan w = w.greaterThan v := by
  obtain rfl | h := h
  · rw [not_lessThan_self, greaterThan_irrefl]
  · rcases apart_iff.mp h with hgreater | hless
    · simp [of_greaterThan hgreater]
    · simp [of_greaterThan hless, hless]

theorem ordered_of_apart (hvw : v = w ∨ Apart v w) (hwv : w = v ∨ Apart w v) (hwu : w = u ∨ Apart w u)
    (hvu : v = u ∨ Apart v u) : Ordered v w u := by
  refine ⟨not_lessThan_self, ?_, ?_, ?_, (lessThan_eq hwv).symm⟩
  · rw [lessThan_eq hvw, lessThan_eq hwv]
    exact fun h => (of_greaterThan h).1
  · rw [lessThan_eq hvw, lessThan_eq hwu, lessThan_eq hvu]
    exact fun hwv huw => greaterThan_trans huw hwv
  · obtain rfl | hapart := hvw
    · simp [not_lessThan_self, lessThanOrEqual]
    · rcases apart_iff.mp hapart with hgreater | hless
      · simp [of_greaterThan hgreater]
      · simp [of_greaterThan hless]

theorem ordered_iff_apart (names : Set (List Char)) :
    (∀ a ∈ names, ∀ b ∈ names, ∀ c ∈ names, Ordered (parse a) (parse b) (parse c)) ↔
      ∀ a ∈ names, ∀ b ∈ names, parse a = parse b ∨ Apart (parse a) (parse b) := by
  constructor
  · intro h a ha b hb
    have hasymm := (h a ha b hb a ha).asymmetric
    rw [apart_iff]
    unfold lessThan greaterThanOrEqual at hasymm
    grind
  · intro h a ha b hb c hc
    exact ordered_of_apart (h a ha b hb) (h b hb a ha) (h b hb c hc) (h a ha c hc)

theorem commit_unordered : (parse "1.0.0-abc".toList).lessThan (parse "1.0.0".toList) = true ∧
    (parse "1.0.0".toList).lessThan (parse "1.0.0-abc".toList) = true := by
  decide +kernel

end Version

end Hydracore.Common
