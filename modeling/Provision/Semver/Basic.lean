/-!
Semantic versions and their order. Versions compare by major, minor and patch number, then by
pre-release, then by build metadata. A version without a pre-release comes after every version
with one; identifiers compare one by one, numeric ones by value and below all others, and a
shorter list of identifiers comes before its extensions.

The orders are compositions of lexicographic comparisons, so their laws are those of the parts.
-/

namespace Provision

/-- A semantic version. Each identifier of `pre` and `build` is a nonempty text of ASCII letters,
digits and hyphens when the version comes from its written form. -/
structure Semver where
  major : Nat
  minor : Nat
  patch : Nat
  pre : List String
  build : List String
deriving DecidableEq, Repr, Inhabited

namespace Semver

def isNumeric (identifier : String) : Bool :=
  identifier.toList.all Char.isDigit

def digitsValue (digits : List Char) : Nat :=
  digits.foldl (fun value d => value * 10 + (d.toNat - '0'.toNat)) 0

/-- What identifiers are compared by: numeric ones come first and compare by value, then by how
many digits they are written with; the others compare as texts. -/
def identifierKey (identifier : String) : Nat × Nat × Nat × String :=
  if isNumeric identifier then
    (0, digitsValue identifier.toList, identifier.length, identifier)
  else (1, 0, 0, identifier)

def compareKeys : Nat × Nat × Nat × String → Nat × Nat × Nat × String → Ordering :=
  compareLex (compareOn (·.1)) <| compareLex (compareOn (·.2.1)) <|
    compareLex (compareOn (·.2.2.1)) (compareOn (·.2.2.2))

def compareIdentifiers (a b : String) : Ordering :=
  compareKeys (identifierKey a) (identifierKey b)

/-- The order of two pre-releases, where the empty one is the greatest. -/
def comparePre : List String → List String → Ordering :=
  compareLex (compareOn fun pre => if pre.isEmpty then 1 else 0)
    (List.compareLex compareIdentifiers)

def compareBuild : List String → List String → Ordering :=
  List.compareLex compareIdentifiers

protected def compare : Semver → Semver → Ordering :=
  compareLex (compareOn (·.major)) <| compareLex (compareOn (·.minor)) <|
    compareLex (compareOn (·.patch)) <|
      compareLex (fun a b => comparePre a.pre b.pre) (fun a b => compareBuild a.build b.build)

instance : Ord Semver := ⟨Semver.compare⟩

def dotted (identifiers : List String) : String :=
  ".".intercalate identifiers

/-- An order pulled back along a function is lawful if the order is. -/
theorem transCmp_on {α β : Type} (f : α → β) (cmp : β → β → Ordering) [h : Std.TransCmp cmp] :
    Std.TransCmp fun a b => cmp (f a) (f b) where
  eq_swap := h.eq_swap
  isLE_trans := h.isLE_trans

instance : Std.TransCmp compareKeys :=
  inferInstanceAs (Std.TransCmp (compareLex _ _))

instance : Std.TransCmp compareIdentifiers :=
  transCmp_on identifierKey compareKeys

instance : Std.LawfulEqCmp compareIdentifiers where
  eq_of_compare {a b} h := by
    obtain ⟨-, -, -, hlast⟩ : _ ∧ _ ∧ _ ∧ _ := by
      simpa only [compareIdentifiers, compareKeys, compareLex_eq_eq] using h
    have hkey : ∀ s, (identifierKey s).2.2.2 = s := by
      intro s
      unfold identifierKey
      split <;> rfl
    have heq : (identifierKey a).2.2.2 = (identifierKey b).2.2.2 :=
      Std.LawfulEqOrd.eq_of_compare hlast
    rwa [hkey, hkey] at heq

instance : Std.TransCmp comparePre :=
  inferInstanceAs (Std.TransCmp (compareLex _ _))

instance : Std.LawfulEqCmp comparePre where
  eq_of_compare h := Std.LawfulEqCmp.eq_of_compare (compareLex_eq_eq.mp h).2

instance : Std.TransCmp compareBuild :=
  inferInstanceAs (Std.TransCmp (List.compareLex _))

instance : Std.LawfulEqCmp compareBuild :=
  inferInstanceAs (Std.LawfulEqCmp (List.compareLex _))

instance : Std.TransOrd Semver :=
  have := transCmp_on Semver.pre comparePre
  have := transCmp_on Semver.build compareBuild
  inferInstanceAs (Std.TransCmp (compareLex _ _))

instance : Std.LawfulEqOrd Semver where
  eq_of_compare {a b} h := by
    obtain ⟨hmajor, hminor, hpatch, hpre, hbuild⟩ : _ ∧ _ ∧ _ ∧ _ ∧ _ := by
      simpa only [compare, Semver.compare, compareLex_eq_eq] using h
    obtain ⟨_, _, _, _, _⟩ := a
    obtain ⟨_, _, _, _, _⟩ := b
    simp only [Semver.mk.injEq]
    exact ⟨Std.LawfulEqOrd.eq_of_compare hmajor, Std.LawfulEqOrd.eq_of_compare hminor,
      Std.LawfulEqOrd.eq_of_compare hpatch, Std.LawfulEqCmp.eq_of_compare hpre,
      Std.LawfulEqCmp.eq_of_compare hbuild⟩

end Semver

end Provision
