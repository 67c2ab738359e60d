/-!
Glob patterns over a whole text. A pattern is read into tokens: a question mark stands for any
character, a star for any run of characters, a bracket set for one character in it or outside it,
and two stars, which must be a whole path component, for any run of components. Every other
character stands for itself; there are no escapes.
-/

namespace Provision.Glob

inductive SetMember
  | single (c : Char)
  | range (first last : Char)
deriving DecidableEq, Repr

def SetMember.holds (c : Char) : SetMember → Bool
  | .single d => c == d
  | .range first last => first.val ≤ c.val && c.val ≤ last.val

inductive Token
  | literal (c : Char)
  | anyChar
  | anyOf (members : List SetMember)
  | noneOf (members : List SetMember)
  | anyRun
  | anyComponents
deriving DecidableEq, Repr

/-- A pattern: its tokens and the text they were read from. -/
structure Pattern where
  tokens : List Token
  text : String
deriving DecidableEq, Repr

/-- What makes a pattern malformed, each with the position of the character that shows it. -/
inductive SyntaxError
  | tooManyStars (position : Nat)
  | brokenComponent (position : Nat)
  | brokenSet (position : Nat)
deriving DecidableEq, Repr

def SyntaxError.message : SyntaxError → String
  | .tooManyStars p => describe p "wildcards are either regular `*` or recursive `**`"
  | .brokenComponent p => describe p "recursive wildcards must form a single path component"
  | .brokenSet p => describe p "invalid range pattern"
where
  describe (position : Nat) (reason : String) : String :=
    "Pattern syntax error near position " ++ toString position ++ ": " ++ reason

/-- The members written between the brackets of a set: `a-b` is a range wherever three characters
remain, and every other character is a member by itself. -/
def setMembers : List Char → List SetMember
  | first :: '-' :: last :: rest => .range first last :: setMembers rest
  | c :: rest => .single c :: setMembers rest
  | [] => []

/-- The body of a set and what follows its closing bracket. The first character of the body is
always taken, also when it is a bracket. -/
def setBody : List Char → Option (List Char × List Char)
  | [] => none
  | first :: rest =>
    let body := rest.takeWhile (· ≠ ']')
    match rest.dropWhile (· ≠ ']') with
    | [] => none
    | _ :: after => some (first :: body, after)

/-- The token of a set and what follows it, given the characters after the opening bracket. -/
def setToken : List Char → Option (Token × List Char)
  | '!' :: rest => (setBody rest).map fun (body, after) => (.noneOf (setMembers body), after)
  | rest => (setBody rest).map fun (body, after) => (.anyOf (setMembers body), after)

private theorem setBody_length {cs body after : List Char} (h : setBody cs = some (body, after)) :
    after.length < cs.length := by
  cases cs with
  | nil => simp [setBody] at h
  | cons first rest =>
    simp only [setBody] at h
    split at h
    · simp at h
    · rename_i d tail hdrop
      obtain ⟨-, rfl⟩ := Prod.mk.inj (Option.some.inj h)
      have hle := (List.dropWhile_sublist (l := rest) (· ≠ ']')).length_le
      rw [hdrop] at hle
      simp only [List.length_cons] at hle ⊢
      omega

private theorem setToken_length {cs after : List Char} {token : Token}
    (h : setToken cs = some (token, after)) : after.length < cs.length := by
  unfold setToken at h
  split at h
  · obtain ⟨⟨body, rest⟩, hbody, heq⟩ := Option.map_eq_some_iff.mp h
    obtain ⟨-, rfl⟩ := Prod.mk.inj heq
    have := setBody_length hbody
    simp only [List.length_cons]
    omega
  · obtain ⟨⟨body, rest⟩, hbody, heq⟩ := Option.map_eq_some_iff.mp h
    obtain ⟨-, rfl⟩ := Prod.mk.inj heq
    exact setBody_length hbody

/-- Read the tokens of a pattern from the characters that remain at a position; `atComponent`
says that a path component starts there. -/
def tokensFrom (position : Nat) (atComponent : Bool) (cs : List Char) :
    Except SyntaxError (List Token) :=
  match cs with
  | [] => .ok []
  | '?' :: rest => (.anyChar :: ·) <$> tokensFrom (position + 1) false rest
  | '*' :: '*' :: '*' :: _ => .error (.tooManyStars (position + 2))
  | '*' :: '*' :: rest =>
    if !atComponent then .error (.brokenComponent (position - 1))
    else
      match rest with
      | [] => .ok [.anyComponents]
      | '/' :: rest => (.anyComponents :: ·) <$> tokensFrom (position + 3) true rest
      | _ => .error (.brokenComponent (position + 2))
  | '*' :: rest => (.anyRun :: ·) <$> tokensFrom (position + 1) false rest
  | '[' :: rest =>
    match h : setToken rest with
    | none => .error (.brokenSet position)
    | some (token, after) =>
      have := setToken_length h
      (token :: ·) <$> tokensFrom (position + 1 + (rest.length - after.length)) false after
  | c :: rest => (.literal c :: ·) <$> tokensFrom (position + 1) (c == '/') rest
termination_by cs.length
decreasing_by all_goals simp_all <;> omega

def Pattern.parse (text : String) : Except SyntaxError Pattern := do
  return ⟨← tokensFrom 0 true text.toList, text⟩

end Provision.Glob
