import Provision.Glob.Basic

/-!
Matching of glob patterns. `matchTokens` says what a match is: the tokens take the whole text, one
after the other. Trying every way to do so takes too long when a pattern has many stars, so
`answers` settles the question for all ends of the text together, from the last token to the
first; `Pattern.isMatch_eq` says that this gives the same.
-/

namespace Provision.Glob

/-- The text that is left when a run that ends in a slash is taken off, for each such run. -/
def afterSlashes : List Char → List (List Char)
  | [] => []
  | c :: rest => if c = '/' then rest :: afterSlashes rest else afterSlashes rest

/-- Every text that is left when a run of characters is taken off the front. -/
def remainders : List Char → List (List Char)
  | [] => [[]]
  | c :: rest => (c :: rest) :: remainders rest

/-- The texts that can be left when a token takes its share of the front of a text. -/
def Token.leaves : Token → List Char → List (List Char)
  | .literal d, c :: rest => if c = d then [rest] else []
  | .anyChar, _ :: rest => [rest]
  | .anyOf members, c :: rest => if members.any (·.holds c) then [rest] else []
  | .noneOf members, c :: rest => if members.any (·.holds c) then [] else [rest]
  | .anyRun, cs => remainders cs
  | .anyComponents, cs => cs :: afterSlashes cs ++ [[]]
  | _, [] => []

/-- Whether the tokens can take the whole text, one after the other. -/
def matchTokens : List Token → List Char → Bool
  | [], cs => cs.isEmpty
  | token :: tokens, cs => (token.leaves cs).any (matchTokens tokens)

/-! ### All ends of a text together

A list of answers has one for each of the remainders of a text, in their order. -/

/-- The answers where a text must begin with a character that passes the test and the rest of it
must be accepted; the empty text has an answer of its own. -/
def oneThen (test : Char → Bool) (atEnd : Bool) : List Char → List Bool → List Bool
  | c :: cs, _ :: later => (test c && later.headD false) :: oneThen test atEnd cs later
  | _, _ => [atEnd]

/-- The answers where some remainder of a text must be accepted. -/
def anyLater : List Bool → List Bool
  | [] => []
  | b :: later =>
    let rest := anyLater later
    (b || rest.headD false) :: rest

/-- The answers for a token and what follows it, given the answers for what follows it. -/
def Token.answers (cs : List Char) (later : List Bool) : Token → List Bool
  | .literal d => oneThen (· == d) false cs later
  | .anyChar => oneThen (fun _ => true) false cs later
  | .anyOf members => oneThen (fun c => members.any (·.holds c)) false cs later
  | .noneOf members => oneThen (fun c => !members.any (·.holds c)) false cs later
  | .anyRun => anyLater later
  | .anyComponents =>
    List.zipWith or later (anyLater (oneThen (· == '/') (later.getLastD false) cs later))

/-- For each remainder of a text, whether the tokens can take it. -/
def answers : List Token → List Char → List Bool
  | [], cs => (remainders cs).map List.isEmpty
  | token :: tokens, cs => token.answers cs (answers tokens cs)

def Pattern.isMatch (p : Pattern) (text : String) : Bool :=
  (answers p.tokens text.toList).headD false

@[simp]
theorem headD_map_remainders (accepts : List Char → Bool) (cs : List Char) :
    ((remainders cs).map accepts).headD false = accepts cs := by
  cases cs <;> rfl

@[simp]
theorem getLastD_map_remainders (accepts : List Char → Bool) (cs : List Char) :
    ((remainders cs).map accepts).getLastD false = accepts [] := by
  induction cs with
  | nil => rfl
  | cons c rest ih => cases rest <;> simp_all [remainders]

def beginsThen (test : Char → Bool) (atEnd : Bool) (accepts : List Char → Bool) :
    List Char → Bool
  | [] => atEnd
  | c :: rest => test c && accepts rest

private theorem oneThen_map_remainders
    (test : Char → Bool) (atEnd : Bool) (accepts : List Char → Bool)
    (cs : List Char) :
    oneThen test atEnd cs ((remainders cs).map accepts) =
      (remainders cs).map (beginsThen test atEnd accepts) := by
  induction cs with
  | nil => rfl
  | cons c rest ih =>
    simp only [remainders, List.map_cons, oneThen, headD_map_remainders, ih, beginsThen]

private theorem anyLater_map_remainders (accepts : List Char → Bool) (cs : List Char) :
    anyLater ((remainders cs).map accepts) =
      (remainders cs).map fun text => (remainders text).any accepts := by
  induction cs with
  | nil => simp [remainders, anyLater]
  | cons c rest ih =>
    simp only [remainders, List.map_cons, anyLater, ih, headD_map_remainders, List.any_cons]

/-- To go on after some slash, or at the end, is to be left with a text that some slash or the end
leaves. -/
theorem any_remainders_beginsThen_slash (accepts : List Char → Bool) (cs : List Char) :
    (remainders cs).any (beginsThen (· == '/') (accepts []) accepts) =
      (afterSlashes cs ++ [[]]).any accepts := by
  induction cs with
  | nil => simp [remainders, afterSlashes, beginsThen]
  | cons c rest ih =>
    by_cases h : c = '/' <;> simp_all [remainders, afterSlashes, beginsThen]

private theorem Token.answers_map_remainders (token : Token) (accepts : List Char → Bool)
    (cs : List Char) :
    token.answers cs ((remainders cs).map accepts) =
      (remainders cs).map fun text => (token.leaves text).any accepts := by
  have one (test : Char → Bool)
      (h : ∀ text, (token.leaves text).any accepts = beginsThen test false accepts text) :
      oneThen test false cs ((remainders cs).map accepts) =
        (remainders cs).map fun text => (token.leaves text).any accepts := by
    simp only [h, oneThen_map_remainders]
  cases token with
  | literal d =>
    refine one _ fun text => ?_
    cases text with
    | nil => rfl
    | cons c rest => by_cases h : c = d <;> simp [leaves, beginsThen, h]
  | anyChar =>
    refine one _ fun text => ?_
    cases text <;> simp [leaves, beginsThen]
  | anyOf members =>
    refine one _ fun text => ?_
    cases text with
    | nil => rfl
    | cons c rest => cases h : members.any (·.holds c) <;> simp [leaves, beginsThen, h]
  | noneOf members =>
    refine one _ fun text => ?_
    cases text with
    | nil => rfl
    | cons c rest => cases h : members.any (·.holds c) <;> simp [leaves, beginsThen, h]
  | anyRun => exact anyLater_map_remainders accepts cs
  | anyComponents =>
    simp only [answers, getLastD_map_remainders, oneThen_map_remainders,
      anyLater_map_remainders, any_remainders_beginsThen_slash, List.zipWith_map,
      List.zipWith_self]
    rfl

private theorem answers_eq_map_matchTokens (tokens : List Token) (cs : List Char) :
    answers tokens cs = (remainders cs).map (matchTokens tokens) := by
  induction tokens with
  | nil => rfl
  | cons token tokens ih =>
    rw [answers, ih, Token.answers_map_remainders]
    rfl

/-- A pattern matches a text when its tokens can take all of it. -/
theorem Pattern.isMatch_eq (p : Pattern) (text : String) :
    p.isMatch text = matchTokens p.tokens text.toList := by
  rw [isMatch, answers_eq_map_matchTokens, headD_map_remainders]

end Provision.Glob
