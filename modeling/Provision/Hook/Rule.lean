import Provision.Recipe.Basic

/-!
Hooks written as rules. A rule has a condition on what the hook sees and an effect; a judging hook
follows the first rule whose condition holds, and a pruning hook follows all of them in turn.
-/

namespace Provision

/-- A condition on what a hook sees. A value of `none` asks for absence. -/
inductive HookCondition
  | setting (key : String) (value? : Option String)
  | option (key : String) (value? : Option String)
  | info (path : String) (value? : Option String)
  | dependency (name : String)
  | dependencyVersion (name version : String)
  | not (condition : HookCondition)
  | all (conditions : List HookCondition)
  | any (conditions : List HookCondition)

structure HookView where
  setting? : String → Option String
  option? : String → Option String
  info? : String → Option String
  dependency? : String → Option DependencyInfo

def HookContext.view (c : HookContext) : HookView :=
  ⟨c.setting?, c.option?, c.info.value?, c.dependency?⟩

/-- What a pruning hook sees: the configuration as pruned so far, and no dependencies. -/
def Configuration.view (c : Configuration) : HookView :=
  ⟨c.settings.get?, c.options.get?, c.value?, fun _ => none⟩

mutual

def HookCondition.holds (view : HookView) : HookCondition → Bool
  | .setting key value? => view.setting? key == value?
  | .option key value? => view.option? key == value?
  | .info path value? => view.info? path == value?
  | .dependency name => (view.dependency? name).isSome
  | .dependencyVersion name version =>
    (view.dependency? name).any (·.reference.version.text == version)
  | .not condition => !condition.holds view
  | .all conditions => allHold view conditions
  | .any conditions => anyHolds view conditions

def allHold (view : HookView) : List HookCondition → Bool
  | [] => true
  | condition :: rest => condition.holds view && allHold view rest

def anyHolds (view : HookView) : List HookCondition → Bool
  | [] => false
  | condition :: rest => condition.holds view || anyHolds view rest

end

inductive HookFailure
  /-- The configuration is invalid for the given reason. -/
  | invalid (reason : String)
  /-- The configuration is invalid, and the reason shows what the hook sees. -/
  | invalidSummary
  /-- The hook crashes with a cause and the contexts around it, innermost first. -/
  | crash (cause : String) (contexts : List String)
deriving DecidableEq, Repr

def Configuration.summary (c : Configuration) : String :=
  ";".intercalate (c.fields.map fun (path, value) => path ++ "=" ++ value)

def HookContext.summary (c : HookContext) : String :=
  let dependencies := c.dependencies.map fun d =>
    d.reference.text ++ ":" ++ d.id?.elim "-" PackageId.digest
  c.reference.text ++ " requested<" ++ c.requested.summary ++ "> info<" ++ c.info.summary ++
    "> deps<" ++ ";".intercalate dependencies ++ ">"

/-- The error that a failure becomes, given the summary of what the hook sees. A crash reads from
the outermost context to the cause. -/
def HookFailure.error (summary : String) : HookFailure → HookError
  | .invalid reason => .invalid reason
  | .invalidSummary => .invalid summary
  | .crash cause contexts => .crash (": ".intercalate (cause :: contexts).reverse)

/-- A rule of a judging hook: a condition, a failure, and the candidates that it offers. -/
structure JudgingRule where
  condition : HookCondition
  failure? : Option HookFailure
  offer : List Candidate

def firstRule (rules : List JudgingRule) (c : HookContext) : Except HookError (List Candidate) :=
  match rules.find? (·.condition.holds c.view) with
  | none => .ok []
  | some rule =>
    match rule.failure? with
    | some failure => .error (failure.error c.summary)
    | none => .ok rule.offer

inductive PruningStep
  | clear
  | remove (path : String)
  | set (path value : String)
  | clearSection (s : ConfigSection)
  | removeIn (s : ConfigSection) (key : String)
  | setIn (s : ConfigSection) (key value : String)
deriving DecidableEq, Repr

def PruningStep.apply (c : Configuration) : PruningStep → Configuration
  | .clear => ∅
  | .remove path => c.remove path
  | .set path value => c.set path value
  | .clearSection s => c.modify s fun _ => ∅
  | .removeIn s key => c.modify s (·.remove key)
  | .setIn s key value => c.modify s (·.insert key value)

/-- A rule of a pruning hook: a condition, changes, and a failure after them. -/
structure PruningRule where
  condition : HookCondition
  steps : List PruningStep
  failure? : Option HookFailure

def PruningRule.run (c : Configuration) (rule : PruningRule) : Except HookError Configuration :=
  if rule.condition.holds c.view then
    match rule.failure? with
    | some failure => .error (failure.error "")
    | none => .ok (rule.steps.foldl PruningStep.apply c)
  else .ok c

def Hooks.ofRules (validate? compatibility? : Option (List JudgingRule))
    (packageId? : Option (List PruningRule)) : Hooks where
  validate? := validate?.map fun rules c => do
    let _ ← firstRule rules c
  compatibility? := compatibility?.map firstRule
  packageId? := packageId?.map fun rules c => rules.foldlM PruningRule.run c

end Provision
