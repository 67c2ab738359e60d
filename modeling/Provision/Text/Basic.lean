/-!
Trimming and cutting texts. A character is blank when it has the Unicode property `White_Space`;
trimming removes blanks from both ends of a text, and `words` cuts a text at its separators and drops
the empty pieces. A text can be cut at a character, at its first or at its last occurrence, or after
a fixed beginning; together with the character the pieces are the text again.
-/

namespace Provision.Text

/-- The property `White_Space`: the ASCII blanks, next line, the no-break spaces, the typographic
spaces, and the line and paragraph separators. -/
def isBlank (c : Char) : Bool :=
  (0x09 ≤ c.val && c.val ≤ 0x0D) || c.val == 0x20 || c.val == 0x85 || c.val == 0xA0 ||
    c.val == 0x1680 || (0x2000 ≤ c.val && c.val ≤ 0x200A) || c.val == 0x2028 ||
    c.val == 0x2029 || c.val == 0x202F || c.val == 0x205F || c.val == 0x3000

def dropBlankEnd (cs : List Char) : List Char :=
  (cs.reverse.dropWhile isBlank).reverse

def trimChars (cs : List Char) : List Char :=
  dropBlankEnd (cs.dropWhile isBlank)

def trim (s : String) : String :=
  String.ofList (trimChars s.toList)

def isBlankText (s : String) : Bool :=
  s.toList.all isBlank

/-- The maximal runs of characters that are not separators, in order. -/
def words (isSeparator : Char → Bool) (cs : List Char) : List (List Char) :=
  (cs.splitOnP isSeparator).filter (fun word => !word.isEmpty)

@[simp] theorem toList_trim (s : String) : (trim s).toList = trimChars s.toList := by
  simp [trim]

/-- The characters before and after the first `sep`; none if `sep` does not occur. -/
def cutChars (sep : Char) : List Char → Option (List Char × List Char)
  | [] => none
  | c :: cs => if c = sep then some ([], cs) else (cutChars sep cs).map fun (l, r) => (c :: l, r)

/-- A cut at the first separator loses nothing, and the first piece holds no separator. -/
theorem cutChars_eq_some_iff {sep : Char} {cs l r : List Char} :
    cutChars sep cs = some (l, r) ↔ cs = l ++ sep :: r ∧ sep ∉ l := by
  induction cs generalizing l r with
  | nil => simp [cutChars]
  | cons c cs ih =>
    by_cases hc : c = sep
    · subst hc
      cases l with
      | nil => simp [cutChars]
      | cons d l => simp [cutChars]; intro h _; simp [h]
    · cases l with
      | nil => simp [cutChars, hc]
      | cons d l =>
        simp only [cutChars, hc, if_false, Option.map_eq_some_iff, Prod.exists, Prod.mk.injEq,
          List.cons.injEq, List.cons_append, List.mem_cons, not_or]
        constructor
        · rintro ⟨a, b, hab, ⟨rfl, rfl⟩, rfl⟩
          obtain ⟨rfl, hmem⟩ := ih.1 hab
          exact ⟨⟨rfl, rfl⟩, Ne.symm hc, hmem⟩
        · rintro ⟨⟨rfl, rfl⟩, _, hmem⟩
          exact ⟨l, r, ih.2 ⟨rfl, hmem⟩, ⟨rfl, rfl⟩, rfl⟩

def cutFirst (sep : Char) (s : String) : Option (String × String) :=
  (cutChars sep s.toList).map fun (l, r) => (String.ofList l, String.ofList r)

theorem cutFirst_eq_some_iff {sep : Char} {s l r : String} :
    cutFirst sep s = some (l, r) ↔ s.toList = l.toList ++ sep :: r.toList ∧ sep ∉ l.toList := by
  rw [cutFirst, Option.map_eq_some_iff, ← cutChars_eq_some_iff]
  constructor
  · rintro ⟨⟨ls, rs⟩, hcut, heq⟩
    cases heq
    rwa [String.toList_ofList, String.toList_ofList]
  · intro hcut
    exact ⟨_, hcut, by simp⟩

def cutLast (sep : Char) (s : String) : Option (String × String) :=
  (cutChars sep s.toList.reverse).map fun (r, l) =>
    (String.ofList l.reverse, String.ofList r.reverse)

def dropStart (start s : String) : Option String :=
  (start.toList.isPrefixOf? s.toList).map String.ofList

end Provision.Text
