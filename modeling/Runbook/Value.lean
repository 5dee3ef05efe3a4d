import Runbook.Assoc
import Runbook.Number.Double
import Runbook.Text.Basic
import Runbook.Text.CodePoint

/-!
# Values of a data document

What a document in JSON or YAML denotes, before anything is asked of its shape:

* `Moment`: a point in time with an optional distance from universal time;
* `Scalar`: null, truth values, numbers, texts, dates, moments and bytes;
* `Value`: scalars, lists, sets and maps that keep the order of their keys;
* `Value.field?`: the value under a text key, and `Value.isTruthy`: what counts as given.
-/

namespace Runbook

/-- A point in time; `zone` is the distance from universal time in minutes, if it is known. -/
structure Moment where
  year : Nat
  month : Nat
  day : Nat
  hour : Nat
  minute : Nat
  second : Nat
  microsecond : Nat
  zone : Option Int
deriving DecidableEq, Repr

/-- A value without parts. A broken text is one with halves of pairs among its code points. -/
inductive Scalar where
  | null
  | bool (b : Bool)
  | int (i : Int)
  | real (x : Double)
  | text (s : String)
  | brokenText (codes : List Nat)
  | date (year month day : Nat)
  | moment (t : Moment)
  | bytes (data : List UInt8)
deriving DecidableEq, Repr

/-- The text of code points, broken if some of them are halves of pairs. -/
def Scalar.ofCodes (codes : List Nat) : Scalar :=
  if codes.any Text.isHalf then .brokenText codes
  else .text (String.ofList (codes.map Char.ofNat))

/-- A value of a data document. -/
inductive Value where
  | scalar (s : Scalar)
  | list (items : List Value)
  | set (members : List Scalar)
  | map (fields : List (Scalar × Value))
deriving Repr

namespace Value

@[match_pattern, reducible] def null : Value := .scalar .null
@[match_pattern, reducible] def bool (b : Bool) : Value := .scalar (.bool b)
@[match_pattern, reducible] def int (i : Int) : Value := .scalar (.int i)
@[match_pattern, reducible] def text (s : String) : Value := .scalar (.text s)

instance : Inhabited Value := ⟨null⟩

/-! ## 1. Maps -/

/-- The number that a scalar is compared by: truth values count as 0 and 1. -/
def numeric? : Scalar → Option (Int ⊕ Double)
  | .bool b => some (.inl (if b then 1 else 0))
  | .int i => some (.inl i)
  | .real x => match x.toInt? with
    | some i => some (.inl i)
    | none => some (.inr x)
  | _ => none

/-- Whether two scalars are one key: numbers and truth values are compared by their value, and what
is no number is a key of its own. -/
def sameKey (a b : Scalar) : Bool :=
  match numeric? a, numeric? b with
  | some x, some y => x == y
  | none, none => a == b
  | _, _ => false

/-- The entries with a new value under the key; an equal key keeps its place and its form. -/
def putField {α : Type} (key : Scalar) (value : α) : List (Scalar × α) → List (Scalar × α)
  | [] => [(key, value)]
  | (k, v) :: rest =>
    if sameKey k key then (k, value) :: rest else (k, v) :: putField key value rest

/-- The value under a text key. -/
def lookup {α : Type} (name : String) : List (Scalar × α) → Option α
  | [] => none
  | (.text k, v) :: rest => if k = name then some v else lookup name rest
  | _ :: rest => lookup name rest

/-- The value under a text key of a map. -/
def field? (v : Value) (name : String) : Option Value :=
  match v with
  | .map fields => lookup name fields
  | _ => none

/-- A map with text keys. -/
def ofFields (fields : List (String × Value)) : Value :=
  .map (fields.map fun entry => (.text entry.1, entry.2))

/-! ## 2. What counts as given -/

/-- Whether a value counts as given: null, false, zero and everything empty do not. -/
def isTruthy : Value → Bool
  | .scalar .null => false
  | .scalar (.bool b) => b
  | .scalar (.int i) => i != 0
  | .scalar (.real x) => !x.isZero
  | .scalar (.text s) => s != ""
  | .scalar (.brokenText codes) => !codes.isEmpty
  | .scalar (.bytes data) => !data.isEmpty
  | .scalar (.date ..) => true
  | .scalar (.moment _) => true
  | .list items => !items.isEmpty
  | .set members => !members.isEmpty
  | .map fields => !fields.isEmpty

/-- Whether a value is a map. -/
def isMap : Value → Bool
  | .map _ => true
  | _ => false

/-! ## 3. Equality -/

mutual

/-- Equality of values is decidable. -/
def decEq : (a b : Value) → Decidable (a = b)
  | .scalar a, .scalar b => if h : a = b then isTrue (by rw [h]) else isFalse (by simpa using h)
  | .list a, .list b =>
    match decEqItems a b with
    | isTrue h => isTrue (by rw [h])
    | isFalse h => isFalse (by simpa using h)
  | .set a, .set b => if h : a = b then isTrue (by rw [h]) else isFalse (by simpa using h)
  | .map a, .map b =>
    match decEqFields a b with
    | isTrue h => isTrue (by rw [h])
    | isFalse h => isFalse (by simpa using h)
  | .scalar _, .list _ => isFalse (by simp)
  | .scalar _, .set _ => isFalse (by simp)
  | .list _, .set _ => isFalse (by simp)
  | .set _, .scalar _ => isFalse (by simp)
  | .set _, .list _ => isFalse (by simp)
  | .set _, .map _ => isFalse (by simp)
  | .map _, .set _ => isFalse (by simp)
  | .scalar _, .map _ => isFalse (by simp)
  | .list _, .scalar _ => isFalse (by simp)
  | .list _, .map _ => isFalse (by simp)
  | .map _, .scalar _ => isFalse (by simp)
  | .map _, .list _ => isFalse (by simp)

/-- Equality of lists of values is decidable. -/
def decEqItems : (a b : List Value) → Decidable (a = b)
  | [], [] => isTrue rfl
  | [], _ :: _ => isFalse (by simp)
  | _ :: _, [] => isFalse (by simp)
  | a :: as, b :: bs =>
    match decEq a b, decEqItems as bs with
    | isTrue h, isTrue hs => isTrue (by rw [h, hs])
    | isFalse h, _ => isFalse (by simp [h])
    | _, isFalse h => isFalse (by simp [h])

/-- Equality of lists of entries is decidable. -/
def decEqFields : (a b : List (Scalar × Value)) → Decidable (a = b)
  | [], [] => isTrue rfl
  | [], _ :: _ => isFalse (by simp)
  | _ :: _, [] => isFalse (by simp)
  | (k, a) :: as, (l, b) :: bs =>
    if hk : k = l then
      match decEq a b, decEqFields as bs with
      | isTrue h, isTrue hs => isTrue (by rw [hk, h, hs])
      | isFalse h, _ => isFalse (by simp [h])
      | _, isFalse h => isFalse (by simp [h])
    else isFalse (by simp [hk])

end

instance : DecidableEq Value := decEq

end Value

end Runbook
