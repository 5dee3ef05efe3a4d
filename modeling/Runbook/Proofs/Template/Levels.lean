import Runbook.Proofs.Template

/-!
# Resolving a tree level by level

A tree can be resolved at every depth at once, or each step when it is come to, what it holds left as
written. Both treat every step of the tree alike:

* `Step.frame`: what a step is apart from its texts and its blocks;
* `Step.ResolvedFrom`: a step is another one with its own texts resolved, its blocks taken over somehow;
* `Step.mapChildren`: a step with each of its children replaced;
* **`Step.resolve_nodeByNode`**: the walk over a resolved tree has the resolved steps of the walk at the
  same positions, each of them is such a step, and one level of it is what resolving the step alone gives.
-/

namespace Runbook

namespace Step

/-! ## 1. Parts of a step -/

/-- What a step is apart from its texts and its blocks: its name, kind and flags, what it does after its
block, the variable that its outcome is captured into, and the variable that it goes by. -/
structure Frame where
  name : String
  kind : StepKind
  continueOnError : Bool
  requireApproval : Bool
  action : Option Action
  capture : Option String
  selector : Option String
deriving DecidableEq, Repr

/-- The frame of a step with a head; `action`, `capture` and `selector` are what its kind adds. -/
def Frame.ofHead (h : StepHead) (kind : StepKind) (action : Option Action)
    (capture selector : Option String) : Frame :=
  ⟨h.name, kind, h.continueOnError, h.requireApproval, action, capture, selector⟩

/-- What a step is apart from its texts and its blocks. -/
def frame : Step → Frame
  | .command h => .ofHead h .command none none none
  | .auth h => .ofHead h .auth none none none
  | .conditional h c _ _ a => .ofHead h .conditional a c.capture none
  | .branch h v _ _ => .ofHead h .branch none none (some v)
  | .loop h c _ => .ofHead h .loop none c.capture none

/-- The else block of a conditional; an empty one is one, too. -/
def elseBlock? : Step → Option (List Step)
  | .command _ => none
  | .auth _ => none
  | .conditional _ _ _ elseBlock _ => elseBlock
  | .branch .. => none
  | .loop .. => none

/-- The default block of a branch; an empty one is one, too. -/
def fallback? : Step → Option (List Step)
  | .command _ => none
  | .auth _ => none
  | .conditional .. => none
  | .branch _ _ _ fallback => fallback
  | .loop .. => none

/-- The step with every block below it changed. -/
def mapBlocks (f : List Step → List Step) : Step → Step
  | .command h => .command h
  | .auth h => .auth h
  | .conditional h c thenBlock elseBlock a =>
    .conditional h c (f thenBlock) (elseBlock.map f) a
  | .branch h v cases fallback =>
    .branch h v (cases.map fun entry => (entry.1, f entry.2)) (fallback.map f)
  | .loop h c body => .loop h c (f body)

/-- The step with every direct child replaced. -/
def mapChildren (f : Step → Step) : Step → Step :=
  mapBlocks (List.map f)

theorem blocks_mapBlocks (f : List Step → List Step) (s : Step) :
    (s.mapBlocks f).blocks = s.blocks.map fun b => (b.1, f b.2) := by
  cases s with
  | command h => rfl
  | auth h => rfl
  | conditional h c t el a => cases el <;> rfl
  | branch h v cs d => cases d <;> simp [mapBlocks, blocks, Function.comp_def]
  | loop h c b => rfl

/-! ## 2. A step with its own texts resolved -/

/-- **A step is another one with its own texts resolved**: all else of it is kept, and `onBlock` says
what has become of each of its blocks. A block that was absent is absent. -/
structure ResolvedFrom (context : Context) (onBlock : List Step → List Step) (s r : Step) : Prop where
  frame : r.frame = s.frame
  command : r.commandText = Template.resolve context s.commandText
  description : r.head.description = Template.resolve context s.head.description
  conditions : r.conditions = s.conditions.map (Template.resolve context)
  caseValues : r.caseValues = s.caseValues.map (Template.resolve context)
  blocks : r.blocks.map (·.2) = s.blocks.map fun b => onBlock b.2
  elseBlock : r.elseBlock? = s.elseBlock?.map onBlock
  fallback : r.fallback? = s.fallback?.map onBlock

theorem frame_resolveHead (context : Context) (h : StepHead) (kind : StepKind)
    (action : Option Action) (capture selector : Option String) :
    Frame.ofHead (h.resolve context) kind action capture selector =
      Frame.ofHead h kind action capture selector := by
  unfold Frame.ofHead
  rw [StepHead.resolve_name, StepHead.resolve_continueOnError, StepHead.resolve_requireApproval]

/-- Resolving a step alone leaves its blocks as written. -/
theorem resolvedFrom_resolveSelf (context : Context) (s : Step) :
    s.ResolvedFrom context id (s.resolveSelf context) := by
  cases s with
  | command h => exact ⟨frame_resolveHead .., rfl, rfl, rfl, rfl, rfl, rfl, rfl⟩
  | auth h => exact ⟨frame_resolveHead .., rfl, rfl, rfl, rfl, rfl, rfl, rfl⟩
  | conditional h c t el a =>
    exact ⟨frame_resolveHead .., rfl, rfl, rfl, rfl, rfl, Option.map_id'.symm, rfl⟩
  | branch h v cs d =>
    refine ⟨frame_resolveHead .., rfl, rfl, rfl, ?_, ?_, rfl, Option.map_id'.symm⟩
    · simp [resolveSelf, caseValues]
    · simp [resolveSelf, blocks, Function.comp_def]
  | loop h c b => exact ⟨frame_resolveHead .., rfl, rfl, rfl, rfl, rfl, rfl, rfl⟩

/-- **Resolving a step at every depth is resolving it alone, and then each of its children at every
depth.** -/
theorem resolve_eq_mapChildren (context : Context) (s : Step) :
    s.resolve context = (s.resolveSelf context).mapChildren (resolve context) := by
  have hblock : resolveBlock context = List.map (resolve context) :=
    funext (resolveBlock_eq context)
  cases s with
  | command h => rfl
  | auth h => rfl
  | conditional h c t el a => cases el <;> simp [resolve, resolveSelf, mapChildren, mapBlocks, hblock]
  | branch h v cs d =>
    cases d <;> simp [resolve, resolveSelf, mapChildren, mapBlocks, hblock, resolveCases_eq]
  | loop h c b => simp [resolve, resolveSelf, mapChildren, mapBlocks, hblock]

/-- What is said of a step with its own texts resolved stays true when its blocks are changed further. -/
theorem ResolvedFrom.mapBlocks {context : Context} {onBlock f : List Step → List Step} {s r : Step}
    (h : s.ResolvedFrom context onBlock r) :
    s.ResolvedFrom context (f ∘ onBlock) (r.mapBlocks f) where
  frame := by rw [← h.frame]; cases r <;> rfl
  command := by rw [← h.command]; cases r <;> rfl
  description := by rw [← h.description]; cases r <;> rfl
  conditions := by rw [← h.conditions]; cases r <;> rfl
  caseValues := by rw [← h.caseValues]; cases r <;> simp [Step.mapBlocks, Step.caseValues]
  blocks := by
    have hb := congrArg (List.map f) h.blocks
    rw [List.map_map, List.map_map] at hb
    rw [blocks_mapBlocks, List.map_map]
    exact hb
  elseBlock := by
    rw [← Option.map_map, ← h.elseBlock]
    cases r <;> rfl
  fallback := by
    rw [← Option.map_map, ← h.fallback]
    cases r <;> rfl

theorem resolvedFrom_resolve (context : Context) (s : Step) :
    s.ResolvedFrom context (resolveBlock context) (s.resolve context) := by
  have h := (resolvedFrom_resolveSelf context s).mapBlocks (f := List.map (resolve context))
  rw [show List.map (resolve context) ∘ id = resolveBlock context from
    funext fun block => (resolveBlock_eq context block).symm] at h
  rw [resolve_eq_mapChildren]
  exact h

/-! ## 3. Trees -/

/-- The variables that conditions of a resolved tree capture into are those of the tree. -/
theorem capturedNames_resolve (context : Context) (steps : List Step) :
    capturedNames (resolveBlock context steps) = capturedNames steps := by
  unfold capturedNames
  rw [walkBlock_resolve, List.filterMap_map]
  congr 1
  refine List.filterMap_congr fun s _ => ?_
  show (((s.resolve context).condition?.bind (·.capture)).filter (· ≠ "")) = _
  rw [condition?_resolve, Option.bind_map]
  rfl

/-- **A tree of steps is resolved node by node.** -/
structure ResolvesNodeByNode (context : Context) (steps : List Step) : Prop where
  /-- The walk over the resolved tree is as long as that over the tree. -/
  length : (walkBlock (resolveBlock context steps)).length = (walkBlock steps).length
  /-- It has the resolved steps at the same positions. -/
  node : ∀ (k : Nat) (s : Step), (walkBlock steps)[k]? = some s →
    (walkBlock (resolveBlock context steps))[k]? = some (s.resolve context)
  /-- A resolved step is the step with its own texts resolved and its blocks resolved. -/
  kept : ∀ s ∈ walkBlock steps, s.ResolvedFrom context (resolveBlock context) (s.resolve context)
  /-- A step that is resolved alone has its blocks as written. -/
  alone : ∀ s ∈ walkBlock steps, s.ResolvedFrom context id (s.resolveSelf context)
  /-- Both differ in the children, each of which is resolved. -/
  level : ∀ s ∈ walkBlock steps,
    s.resolve context = (s.resolveSelf context).mapChildren (resolve context)
  /-- The same variables are captured. -/
  captured : capturedNames (resolveBlock context steps) = capturedNames steps

/-- **Every tree is resolved node by node.** -/
theorem resolve_nodeByNode (context : Context) (steps : List Step) :
    ResolvesNodeByNode context steps where
  length := by rw [walkBlock_resolve, List.length_map]
  node k s h := by rw [walkBlock_resolve, List.getElem?_map, h, Option.map_some]
  kept s _ := resolvedFrom_resolve context s
  alone s _ := resolvedFrom_resolveSelf context s
  level s _ := resolve_eq_mapChildren context s
  captured := capturedNames_resolve context steps

end Step

end Runbook
