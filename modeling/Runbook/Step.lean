/-!
# Steps of a workflow

A step runs one command or steers which steps run:

* `Condition`: an expression, and the variable that its outcome is captured into, if any;
* `ActionKind`, `Action`: what a conditional does once its block has run;
* `StepHead`: what every step has -- name, description, command text and two flags;
* `Step`: a command, an authentication, a conditional, a branch or a loop;
* `Step.head`, `Step.kind`: the parts that do not depend on the kind.

Blocks are lists of steps. An absent else or default block differs from an empty one.
-/

namespace Runbook

/-! ## 1. Conditions and actions -/

/-- An expression that holds or does not, optionally captured into a variable. -/
structure Condition where
  expression : String
  capture : Option String
deriving DecidableEq, Repr

/-- What a conditional does once its block has run. -/
inductive ActionKind where
  | runThen
  | runElse
  | proceed
  | leaveLoop
  | leaveRun
deriving DecidableEq, Repr

/-- The word for an action. -/
def ActionKind.name : ActionKind → String
  | .runThen => "run_then"
  | .runElse => "run_else"
  | .proceed => "continue"
  | .leaveLoop => "break"
  | .leaveRun => "return"

/-- Every action, in the order in which messages list them. -/
def ActionKind.all : List ActionKind :=
  [.runThen, .runElse, .proceed, .leaveLoop, .leaveRun]

/-- The action of a word. -/
def ActionKind.ofName? (name : String) : Option ActionKind :=
  all.find? fun kind => kind.name = name

/-- An action with the exit code it carries; only leaving the run makes use of it. -/
structure Action where
  kind : ActionKind
  exitCode : Option Int
deriving DecidableEq, Repr

/-- Why an action cannot be made. -/
inductive ActionFault where
  | unknownKind
  | missingExitCode
deriving DecidableEq, Repr

/-- The action that leaves the run with an exit code. -/
def Action.leaving (exitCode : Int) : Action :=
  ⟨.leaveRun, some exitCode⟩

/-- An action without an exit code; leaving the run needs one. -/
def Action.ofKind (kind : ActionKind) : Except ActionFault Action :=
  if kind = .leaveRun then .error .missingExitCode else .ok ⟨kind, none⟩

/-- The action of a word, without an exit code. -/
def Action.ofName (name : String) : Except ActionFault Action :=
  match ActionKind.ofName? name with
  | some kind => Action.ofKind kind
  | none => .error .unknownKind

/-! ## 2. Steps -/

/-- What every step has. -/
structure StepHead where
  name : String
  description : String
  command : String
  continueOnError : Bool
  requireApproval : Bool
deriving DecidableEq, Repr

/-- The five kinds of step. -/
inductive StepKind where
  | command
  | auth
  | conditional
  | branch
  | loop
deriving DecidableEq, Repr

/-- The word for a kind. -/
def StepKind.name : StepKind → String
  | .command => "command"
  | .auth => "auth"
  | .conditional => "conditional"
  | .branch => "branch"
  | .loop => "loop"

/-- Every kind, in the order in which messages list them. -/
def StepKind.all : List StepKind :=
  [.command, .auth, .conditional, .branch, .loop]

/-- The kind of a word. -/
def StepKind.ofName? (name : String) : Option StepKind :=
  all.find? fun kind => kind.name = name

/-- Whether steps of this kind hold other steps. -/
def StepKind.isControlFlow : StepKind → Bool
  | .command => false
  | .auth => false
  | .conditional => true
  | .branch => true
  | .loop => true

/-- A step. A command and an authentication run the command text of their head; a conditional runs
one of two blocks; a branch runs the block of the first case whose value its selector has; a loop
runs its body as long as its condition holds. -/
inductive Step where
  | command (head : StepHead)
  | auth (head : StepHead)
  | conditional (head : StepHead) (condition : Condition) (thenBlock : List Step)
      (elseBlock : Option (List Step)) (action : Option Action)
  | branch (head : StepHead) (selector : String) (cases : List (String × List Step))
      (fallback : Option (List Step))
  | loop (head : StepHead) (condition : Condition) (body : List Step)
deriving Repr

namespace Step

/-- What the step has in common with all others. -/
def head : Step → StepHead
  | .command h => h
  | .auth h => h
  | .conditional h .. => h
  | .branch h .. => h
  | .loop h .. => h

/-- The kind of the step. -/
def kind : Step → StepKind
  | .command _ => .command
  | .auth _ => .auth
  | .conditional .. => .conditional
  | .branch .. => .branch
  | .loop .. => .loop

/-- The name of the step. -/
def name (s : Step) : String := s.head.name

/-- The command text of the step; steps that hold others have none. -/
def commandText (s : Step) : String := s.head.command

/-! ## 3. Equality -/

mutual

/-- Equality of steps is decidable. -/
def decEq : (a b : Step) → Decidable (a = b)
  | .command h, .command h' =>
    if e : h = h' then isTrue (by rw [e]) else isFalse (by simp [e])
  | .auth h, .auth h' =>
    if e : h = h' then isTrue (by rw [e]) else isFalse (by simp [e])
  | .conditional h c t none a, .conditional h' c' t' none a' =>
    if e : h = h' ∧ c = c' ∧ a = a' then
      match decEqBlock t t' with
      | isTrue e' => isTrue (by obtain ⟨rfl, rfl, rfl⟩ := e; rw [e'])
      | isFalse e' => isFalse (by simp [e'])
    else isFalse (by intro x; apply e; injection x with x₁ x₂ _ _ x₅; exact ⟨x₁, x₂, x₅⟩)
  | .conditional h c t (some b) a, .conditional h' c' t' (some b') a' =>
    if e : h = h' ∧ c = c' ∧ a = a' then
      match decEqBlock t t', decEqBlock b b' with
      | isTrue e₁, isTrue e₂ => isTrue (by obtain ⟨rfl, rfl, rfl⟩ := e; rw [e₁, e₂])
      | isFalse e', _ => isFalse (by simp [e'])
      | _, isFalse e' => isFalse (by simp [e'])
    else isFalse (by intro x; apply e; injection x with x₁ x₂ _ _ x₅; exact ⟨x₁, x₂, x₅⟩)
  | .branch h v cs none, .branch h' v' cs' none =>
    if e : h = h' ∧ v = v' then
      match decEqCases cs cs' with
      | isTrue e' => isTrue (by obtain ⟨rfl, rfl⟩ := e; rw [e'])
      | isFalse e' => isFalse (by simp [e'])
    else isFalse (by intro x; apply e; injection x with x₁ x₂; exact ⟨x₁, x₂⟩)
  | .branch h v cs (some d), .branch h' v' cs' (some d') =>
    if e : h = h' ∧ v = v' then
      match decEqCases cs cs', decEqBlock d d' with
      | isTrue e₁, isTrue e₂ => isTrue (by obtain ⟨rfl, rfl⟩ := e; rw [e₁, e₂])
      | isFalse e', _ => isFalse (by simp [e'])
      | _, isFalse e' => isFalse (by simp [e'])
    else isFalse (by intro x; apply e; injection x with x₁ x₂; exact ⟨x₁, x₂⟩)
  | .loop h c b, .loop h' c' b' =>
    if e : h = h' ∧ c = c' then
      match decEqBlock b b' with
      | isTrue e' => isTrue (by obtain ⟨rfl, rfl⟩ := e; rw [e'])
      | isFalse e' => isFalse (by simp [e'])
    else isFalse (by intro x; apply e; injection x with x₁ x₂; exact ⟨x₁, x₂⟩)
  | .conditional _ _ _ none _, .conditional _ _ _ (some _) _ => isFalse (by simp)
  | .conditional _ _ _ (some _) _, .conditional _ _ _ none _ => isFalse (by simp)
  | .branch _ _ _ none, .branch _ _ _ (some _) => isFalse (by simp)
  | .branch _ _ _ (some _), .branch _ _ _ none => isFalse (by simp)
  | .command _, .auth _ => isFalse (by simp)
  | .command _, .conditional .. => isFalse (by simp)
  | .command _, .branch .. => isFalse (by simp)
  | .command _, .loop .. => isFalse (by simp)
  | .auth _, .command _ => isFalse (by simp)
  | .auth _, .conditional .. => isFalse (by simp)
  | .auth _, .branch .. => isFalse (by simp)
  | .auth _, .loop .. => isFalse (by simp)
  | .conditional .., .command _ => isFalse (by simp)
  | .conditional .., .auth _ => isFalse (by simp)
  | .conditional .., .branch .. => isFalse (by simp)
  | .conditional .., .loop .. => isFalse (by simp)
  | .branch .., .command _ => isFalse (by simp)
  | .branch .., .auth _ => isFalse (by simp)
  | .branch .., .conditional .. => isFalse (by simp)
  | .branch .., .loop .. => isFalse (by simp)
  | .loop .., .command _ => isFalse (by simp)
  | .loop .., .auth _ => isFalse (by simp)
  | .loop .., .conditional .. => isFalse (by simp)
  | .loop .., .branch .. => isFalse (by simp)

/-- Equality of blocks is decidable. -/
def decEqBlock : (a b : List Step) → Decidable (a = b)
  | [], [] => isTrue rfl
  | [], _ :: _ => isFalse (by simp)
  | _ :: _, [] => isFalse (by simp)
  | a :: as, b :: bs =>
    match decEq a b, decEqBlock as bs with
    | isTrue h, isTrue hs => isTrue (by rw [h, hs])
    | isFalse h, _ => isFalse (by simp [h])
    | _, isFalse h => isFalse (by simp [h])

/-- Equality of lists of cases is decidable. -/
def decEqCases : (a b : List (String × List Step)) → Decidable (a = b)
  | [], [] => isTrue rfl
  | [], _ :: _ => isFalse (by simp)
  | _ :: _, [] => isFalse (by simp)
  | (v, a) :: as, (w, b) :: bs =>
    if hv : v = w then
      match decEqBlock a b, decEqCases as bs with
      | isTrue h, isTrue hs => isTrue (by rw [hv, h, hs])
      | isFalse h, _ => isFalse (by simp [h])
      | _, isFalse h => isFalse (by simp [h])
    else isFalse (by simp [hv])

end

instance : DecidableEq Step := decEq

end Step

end Runbook
