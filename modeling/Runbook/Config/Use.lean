import Runbook.Calls
import Runbook.Config
import Runbook.Pattern.Reader

/-!
# Settings put to use

A configuration keeps some settings as they were given. Whoever uses one of them needs it in the
form that the use asks for, and `Misuse` says which form was missed:

* `Config.textSet`: the texts among members of a set, all of which must be able to be members;
* `Config.callWords`: the words by which a configuration calls workflows.
-/

namespace Runbook

/-- What keeps a configuration from being used. -/
inductive Misuse where
  | notMember
  | patternNotText
  | patternRefused (r : Pattern.Refusal)
  | prefixNotText
deriving DecidableEq, Repr

/-- Whether a value can be a member of a set: collections cannot. -/
def Value.isScalar : Value → Bool
  | .scalar _ => true
  | .list _ => false
  | .set _ => false
  | .map _ => false

/-- The texts among values. -/
def Value.textsAmong (values : List Value) : List String :=
  values.filterMap fun
    | .scalar (.text s) => some s
    | _ => none

/-- The texts of a set that is made of the values. -/
def Config.textSet (values : List Value) : Except Misuse (List String) :=
  if values.all Value.isScalar then .ok (Value.textsAmong values) else .error .notMember

/-- The words by which a configuration calls workflows. -/
def Config.callWords (config : Config) : Except Misuse (List (List Char)) :=
  match config.callPrefix with
  | .scalar (.text s) => .ok (Calls.wordsOfPrefix s)
  | _ => .error .prefixNotText

end Runbook
