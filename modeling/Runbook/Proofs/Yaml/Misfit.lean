import Runbook.Proofs.Fallible
import Runbook.Yaml.Document

/-!
# Documents that cannot be taken in

A text in YAML may be well-formed and still have no value. This says something of the text:

* `NodeReader.document_failsBy`, `Draft.node_failsBy`: nodes and graphs fail only because the text is
  malformed;
* `Graph.Keeps`, `Graph.flatten_keeping`: merging changes neither scalars nor what is a mapping;
* `Graph.Misfit`: a scalar whose text does not fit its tag, or a mapping under a tag for scalars;
* `Making.document_failsBy`: a graph gives a document, unless the text is malformed or something in the
  graph is a misfit;
* **`refusal_of_read`**: a text that is not malformed and has no value holds a number that is too large,
  too many collections one in the other, or a misfit.
-/

namespace Runbook.Yaml

/-- A problem that says that a text is no document. -/
def Malformed (p : Problem) : Prop := p.isMalformed = true

/-! ## 1. Nodes from tokens -/

namespace NodeReader

theorem malformed_outOfPlace (ts : List Token) : Malformed (outOfPlace ts) := by
  unfold outOfPlace
  split <;> rfl

theorem readProperties_failsBy (handles : Handles) (ts : List Token) :
    FailsBy Malformed (readProperties handles ts) := by
  have tag : ∀ t, FailsBy Malformed (fullTag handles t) := by
    intro t
    unfold fullTag
    split
    · exact .ok
    · split
      · exact .ok
      · exact .error rfl
  unfold readProperties
  split
  · exact (tag _).bind fun _ _ => .pure
  · exact (tag _).bind fun _ _ => .pure
  · exact .pure
  · exact (tag _).bind fun _ _ => .pure
  · exact .pure

/-- With some fuel all that is read from tokens fails only because they are no document. -/
structure Readings (handles : Handles) (fuel : Nat) : Prop where
  node : ∀ setting ts, FailsBy Malformed (node handles setting fuel ts)
  blockItems : ∀ ts, FailsBy Malformed (blockItems handles fuel ts)
  looseItems : ∀ ts, FailsBy Malformed (looseItems handles fuel ts)
  blockEntries : ∀ ts, FailsBy Malformed (blockEntries handles fuel ts)
  blockValue : ∀ ts, FailsBy Malformed (blockValue handles fuel ts)
  flowItems : ∀ isFirst ts, FailsBy Malformed (flowItems handles isFirst fuel ts)
  flowItem : ∀ ts, FailsBy Malformed (flowItem handles fuel ts)
  flowValue : ∀ close ts, FailsBy Malformed (flowValue handles close fuel ts)
  flowEntries : ∀ isFirst ts, FailsBy Malformed (flowEntries handles isFirst fuel ts)
  flowPair : ∀ ts, FailsBy Malformed (flowPair handles fuel ts)

variable {handles : Handles} {fuel : Nat}

theorem node_failsBy (h : Readings handles fuel) (setting : Setting) (ts : List Token) :
    FailsBy Malformed (node handles setting (fuel + 1) ts) := by
  unfold node
  split
  · exact .ok
  · refine (readProperties_failsBy handles ts).bind fun r _ => ?_
    obtain ⟨p, rest⟩ := r
    dsimp only
    split
    · exact (h.looseItems _).bind fun _ _ => .pure
    · exact .pure
    · exact (h.flowItems _ _).bind fun _ _ => .pure
    · exact (h.flowEntries _ _).bind fun _ _ => .pure
    · exact (h.blockItems _).bind fun _ _ => .pure
    · exact (h.blockItems _).bind fun _ _ => .pure
    · exact (h.blockEntries _).bind fun _ _ => .pure
    · exact (h.blockEntries _).bind fun _ _ => .pure
    · split
      · exact .pure
      · exact .throw (malformed_outOfPlace _)

/-- A node, or nothing where nothing is written. -/
theorem optional_failsBy {written : Bool} {x : Except Problem (Node × List Token)} {ts : List Token}
    (h : FailsBy Malformed x) :
    FailsBy Malformed (if written then .ok (Node.empty, ts) else x) := by
  split
  · exact .ok
  · exact h

/-- Reading on behind a node, or behind nothing where nothing is written. -/
theorem behind_failsBy {α : Type} {written : Bool} {x : Except Problem (Node × List Token)}
    {ts : List Token} {f : Node × List Token → Except Problem α} (h : FailsBy Malformed x)
    (hf : ∀ a, FailsBy Malformed (f a)) :
    FailsBy Malformed (if written then .ok (Node.empty, ts) >>= f else x >>= f) := by
  split
  · exact hf _
  · exact h.bind fun a _ => hf a

theorem readings_succ (h : Readings handles fuel) : Readings handles (fuel + 1) where
  node := node_failsBy h
  blockItems ts := by
    unfold NodeReader.blockItems
    split
    · exact behind_failsBy (h.node _ _) fun _ => (h.blockItems _).bind fun _ _ => .pure
    · exact .ok
    · exact .error (malformed_outOfPlace _)
  looseItems ts := by
    unfold NodeReader.looseItems
    split
    · exact behind_failsBy (h.node _ _) fun _ => (h.looseItems _).bind fun _ _ => .pure
    · exact .ok
  blockEntries ts := by
    unfold NodeReader.blockEntries
    split
    · exact behind_failsBy (h.node _ _) fun _ => (h.blockValue _).bind fun _ _ =>
        (h.blockEntries _).bind fun _ _ => .pure
    · exact .ok
    · exact .error (malformed_outOfPlace _)
  blockValue ts := by
    unfold NodeReader.blockValue
    split
    · exact optional_failsBy (h.node _ _)
    · exact .ok
  flowItems isFirst ts := by
    unfold NodeReader.flowItems
    split
    · exact .ok
    · exact .ok
    · exact h.flowItem _
    · exact h.flowItem _
    · exact .error (malformed_outOfPlace _)
  flowItem ts := by
    unfold NodeReader.flowItem
    split
    · exact behind_failsBy (h.node _ _) fun _ => (h.flowValue _ _).bind fun _ _ =>
        (h.flowItems _ _).bind fun _ _ => .pure
    · exact (h.node _ _).bind fun _ _ => (h.flowItems _ _).bind fun _ _ => .pure
  flowValue close ts := by
    unfold NodeReader.flowValue
    split
    · exact optional_failsBy (h.node _ _)
    · exact .ok
  flowEntries isFirst ts := by
    unfold NodeReader.flowEntries
    split
    · exact .ok
    · exact .ok
    · exact h.flowPair _
    · exact h.flowPair _
    · exact .error (malformed_outOfPlace _)
  flowPair ts := by
    unfold NodeReader.flowPair
    split
    · exact behind_failsBy (h.node _ _) fun _ => (h.flowValue _ _).bind fun _ _ =>
        (h.flowEntries _ _).bind fun _ _ => .pure
    · exact (h.node _ _).bind fun _ _ => (h.flowEntries _ _).bind fun _ _ => .pure

theorem readings (handles : Handles) (fuel : Nat) : Readings handles fuel := by
  induction fuel with
  | zero => constructor <;> intros <;> exact .error rfl
  | succ fuel ih => exact readings_succ ih

theorem directives_failsBy (ts : List Token) (declared : Declared) :
    FailsBy Malformed (directives ts declared) := by
  fun_induction directives ts declared with
  | case1 | case2 | case4 => exact .error rfl
  | case3 _ _ _ _ _ _ ih => exact ih
  | case5 _ _ _ _ _ ih => exact ih
  | case6 _ _ ih => exact ih
  | case7 => exact .ok

theorem document_failsBy (fuel : Nat) (ts : List Token) : FailsBy Malformed (document fuel ts) := by
  have declared : FailsBy Malformed (declaredDocument fuel ts) := by
    unfold declaredDocument
    refine (directives_failsBy _ _).bind fun r _ => ?_
    dsimp only
    split
    · split
      · exact .pure
      · exact ((readings _ _).node _ _).bind fun _ _ => .pure
    · exact .throw (malformed_outOfPlace _)
  unfold document
  split
  · exact .pure
  · exact declared
  · exact declared
  · exact ((readings _ _).node _ _).bind fun _ _ => .pure

end NodeReader

/-! ## 2. Graphs -/

namespace Draft

mutual

/-- A tree becomes a part of a graph unless its anchors and aliases are not as they should be. -/
theorem node_failsBy (d : Draft) (n : Node) : FailsBy Malformed (d.node n) := by
  match n with
  | .scalar _ _ _ => exact .ok
  | .sequence _ items => exact (nodes_failsBy _ items).map
  | .mapping _ entries => exact (entryNodes_failsBy _ entries).map
  | .anchored _ n =>
    unfold Draft.node
    split
    · exact .error rfl
    · exact node_failsBy _ n
  | .alias _ =>
    unfold Draft.node
    split
    · exact .ok
    · exact .error rfl

theorem nodes_failsBy (d : Draft) (ns : List Node) : FailsBy Malformed (d.nodes ns) := by
  cases ns with
  | nil => exact .ok
  | cons n rest => exact (node_failsBy d n).bind fun _ _ => (nodes_failsBy _ rest).map

theorem entryNodes_failsBy (d : Draft) (entries : List (Node × Node)) :
    FailsBy Malformed (d.entryNodes entries) := by
  cases entries with
  | nil => exact .ok
  | cons entry rest =>
    obtain ⟨k, v⟩ := entry
    exact (node_failsBy d k).bind fun _ _ => (node_failsBy _ v).bind fun _ _ =>
      (entryNodes_failsBy _ rest).map

end

end Draft

namespace Graph

/-- **A graph in which scalars and mappings are what they were**; the tag of a single equals sign may have
become that of texts. -/
structure Keeps (g g' : Graph) : Prop where
  tag : ∀ n, g'.tag n = g.tag n ∨ g.tag n = coreTag "value" ∧ g'.tag n = coreTag "str"
  scalar : ∀ n codes, g'.content n = .scalar codes ↔ g.content n = .scalar codes
  mapping : ∀ n, (∃ entries, g'.content n = .mapping entries) ↔
    ∃ entries, g.content n = .mapping entries

namespace Keeps

variable {g g' g'' : Graph}

theorem refl (g : Graph) : Keeps g g := ⟨fun _ => Or.inl rfl, fun _ _ => Iff.rfl, fun _ => Iff.rfl⟩

theorem trans (h : Keeps g g') (h' : Keeps g' g'') : Keeps g g'' where
  tag n := by
    rcases h'.tag n with ht | ⟨hv, ht⟩
    · rw [ht]
      exact h.tag n
    · rcases h.tag n with hn | ⟨hn, -⟩
      · exact Or.inr ⟨hn.symm.trans hv, ht⟩
      · exact Or.inr ⟨hn, ht⟩
  scalar n codes := (h'.scalar n codes).trans (h.scalar n codes)
  mapping n := (h'.mapping n).trans (h.mapping n)

theorem withTag {n : Nat} (h : g.tag n = coreTag "value") :
    Keeps g (g.withTag n (coreTag "str")) where
  tag m := by
    by_cases hm : n = m
    · subst hm
      unfold Graph.tag at h
      unfold Graph.tag Graph.withTag
      rw [Array.getElem?_modify, if_pos rfl]
      cases hv : g[n]? with
      | none => exact Or.inl rfl
      | some v =>
        rw [hv] at h
        exact Or.inr ⟨h, rfl⟩
    · unfold Graph.tag Graph.withTag
      rw [Array.getElem?_modify, if_neg hm]
      exact Or.inl rfl
  scalar m codes := by
    unfold Graph.content Graph.withTag
    rw [Array.getElem?_modify]
    split
    · cases g[m]? <;> rfl
    · exact Iff.rfl
  mapping m := by
    unfold Graph.content Graph.withTag
    rw [Array.getElem?_modify]
    split
    · cases g[m]? <;> rfl
    · exact Iff.rfl

theorem withTextKeys (g : Graph) (entries : List (Nat × Nat)) : Keeps g (g.withTextKeys entries) := by
  unfold Graph.withTextKeys
  induction entries generalizing g with
  | nil => exact refl g
  | cons entry rest ih =>
    rw [List.foldl_cons]
    refine trans ?_ (ih _)
    dsimp only
    split
    · rename_i hvalue
      exact withTag hvalue
    · exact refl g

end Keeps

theorem content_withEntries {g : Graph} {n : Nat} {entries : List (Nat × Nat)}
    (h : g.content n = .mapping entries) (entries' : List (Nat × Nat)) (m : Nat) :
    (g.withEntries n entries').content m = if n = m then .mapping entries' else g.content m := by
  unfold Graph.content Graph.withEntries
  rw [Array.getElem?_modify]
  by_cases hm : n = m
  · subst hm
    rw [if_pos rfl, if_pos rfl]
    unfold Graph.content at h
    cases hv : g[n]? with
    | none =>
      rw [hv] at h
      cases h
    | some v => rfl
  · rw [if_neg hm, if_neg hm]

theorem Keeps.withEntries {g : Graph} {n : Nat} (h : ∃ entries, g.content n = .mapping entries)
    (entries' : List (Nat × Nat)) : Keeps g (g.withEntries n entries') := by
  obtain ⟨entries, h⟩ := h
  refine ⟨fun m => ?_, fun m codes => ?_, fun m => ?_⟩
  · unfold Graph.tag Graph.withEntries
    rw [Array.getElem?_modify]
    split
    · cases g[m]? <;> exact Or.inl rfl
    · exact Or.inl rfl
  · rw [content_withEntries h]
    split
    · rename_i hm
      rw [← hm, h]
      constructor <;> nofun
    · exact Iff.rfl
  · rw [content_withEntries h]
    split
    · rename_i hm
      rw [← hm, h]
      exact ⟨fun _ => ⟨_, rfl⟩, fun _ => ⟨_, rfl⟩⟩
    · exact Iff.rfl

/-- **What is made with a graph** leaves one that keeps what was there, or ends in a problem as `P`
says. -/
def Keeping {α : Type} (P : Problem → Prop) (g : Graph) (graph : α → Graph) : Except Problem α → Prop
  | .ok a => Keeps g (graph a)
  | .error p => P p

namespace Keeping

variable {α β : Type} {P Q : Problem → Prop} {g g' : Graph} {graph : α → Graph}
  {x : Except Problem α}

theorem bind {after : β → Graph} {f : α → Except Problem β} (h : Keeping P g graph x)
    (hf : ∀ a, Keeps g (graph a) → Keeping P g after (f a)) : Keeping P g after (x.bind f) := by
  cases x with
  | ok a => exact hf a h
  | error p => exact h

theorem map {after : β → Graph} {f : α → β} (h : Keeping P g graph x)
    (hf : ∀ a, Keeps g (graph a) → Keeps g (after (f a))) : Keeping P g after (x.map f) := by
  cases x with
  | ok a => exact hf a h
  | error p => exact h

theorem since (h : Keeping P g' graph x) (hk : Keeps g g') : Keeping P g graph x := by
  cases x with
  | ok a => exact hk.trans h
  | error p => exact h

theorem keeps {a : α} (h : Keeping P g graph x) (hx : x = .ok a) : Keeps g (graph a) := by
  rw [hx] at h
  exact h

theorem failsBy (h : Keeping P g graph x) : FailsBy P x := by
  intro p hp
  rw [hp] at h
  exact h

theorem imp (h : Keeping P g graph x) (hp : ∀ p, P p → Q p) : Keeping Q g graph x := by
  cases x with
  | ok a => exact h
  | error p => exact hp p h

theorem foldlM {f : β → α → Except Problem β} {after : β → Graph}
    (hf : ∀ b a, Keeps g (after b) → Keeping P g after (f b a)) (items : List α) {b : β}
    (h : Keeps g (after b)) : Keeping P g after (items.foldlM f b) := by
  induction items generalizing b with
  | nil => exact h
  | cons a rest ih => exact (hf b a h).bind fun b' hb' => ih hb'

end Keeping

/-- **Merging keeps scalars and mappings**, or finds that something cannot be merged: by induction on the
fuel. -/
theorem flatten_keeping (fuel : Nat) : ∀ (n : Nat) (merged : List (Nat × Nat)) (g : Graph),
    (∃ entries, g.content n = .mapping entries) →
      Keeping Malformed g id (flatten n fuel merged g) := by
  induction fuel with
  | zero => exact fun _ _ g _ => Keeps.refl g
  | succ fuel ih =>
    intro n merged g hn
    unfold flatten
    split
    · have hkeys := Keeps.withTextKeys g (g.entries n)
      dsimp only
      split
      · exact hkeys
      · exact hkeys.trans (Keeps.withEntries ((hkeys.mapping n).mpr hn) _)
    · rename_i v others hmerge
      have hk := Keeps.withEntries hn others
      dsimp only
      refine Keeping.since ?_ hk
      -- the mapping whose entry was taken out is still one
      have onward : ∀ {g'} (merged : List (Nat × Nat)), Keeps (g.withEntries n others) g' →
          Keeping Malformed (g.withEntries n others) id (flatten n fuel merged g') :=
        fun merged hk' => (ih n merged _ ((hk'.mapping n).mpr ((hk.mapping n).mpr hn))).since hk'
      split
      · rename_i entries hv
        exact (ih v [] _ ⟨_, hv⟩).bind fun g' hk' => onward _ hk'
      · rename_i items _
        have hfound : ∀ {f}, (∀ state m, Keeps (g.withEntries n others) state.2 →
            Keeping Malformed (g.withEntries n others) Prod.snd (f state m)) →
            Keeping Malformed (g.withEntries n others) Prod.snd
              (items.foldlM f (([] : List (List (Nat × Nat))), g.withEntries n others)) :=
          fun hf => Keeping.foldlM hf items (Keeps.refl _)
        refine (hfound fun state m hk' => ?_).bind fun a hk' => onward _ hk'
        split
        · rename_i entries hm
          exact ((ih m [] state.2 ⟨_, hm⟩).since hk').map fun g' hk'' => hk''
        · rfl
        · rfl
      · rfl

/-! ## 3. Scalars -/

/-- A tag under which a node is made a scalar, at the latest as a key. -/
def UnderScalarTag (g : Graph) (n : Nat) : Prop :=
  scalarTags.contains (g.tag n) = true ∨ g.tag n = coreTag "value"

/-- **Why a graph cannot be taken in, though its text is a document**: the text of a scalar does not fit
the tag of the scalar, or a mapping stands under a tag for scalars. -/
inductive Misfit (g : Graph) (p : Problem) : Prop
  | text {n m : Nat} {codes : List Nat} (found : g.content m = .scalar codes)
      (unfit : scalarOf? (g.tag n) codes = some (.error p))
  | mapping {n : Nat} {entries : List (Nat × Nat)} (found : g.content n = .mapping entries)
      (unfit : g.UnderScalarTag n)

/-- A problem of a text, or a misfit. -/
def Unfit (g : Graph) (p : Problem) : Prop := Malformed p ∨ g.Misfit p

/-- The text of a node is that of a scalar. -/
theorem content_of_scalarText {g : Graph} {fuel n : Nat} {codes : List Nat}
    (h : g.scalarText fuel n = .ok codes) : ∃ m, g.content m = .scalar codes := by
  induction fuel generalizing n with
  | zero => cases h
  | succ fuel ih =>
    unfold scalarText at h
    split at h
    · rename_i hn
      cases h
      exact ⟨n, hn⟩
    · cases h
    · split at h
      · exact ih h
      · cases h

/-- A node without a text is a sequence or a mapping. -/
theorem scalarText_failsBy (g : Graph) (fuel n : Nat) :
    FailsBy (fun p => Malformed p ∨ ∃ entries, g.content n = .mapping entries)
      (g.scalarText (fuel + 1) n) := by
  unfold scalarText
  split
  · exact .ok
  · exact .error (Or.inl rfl)
  · rename_i entries hn
    exact fun _ _ => Or.inr ⟨entries, hn⟩

/-- A node that has a text and is no scalar is a mapping. -/
theorem mapping_of_scalarText {g : Graph} {fuel n : Nat} {codes : List Nat}
    (h : g.scalarText fuel n = .ok codes) (hn : g.isScalar n = false) :
    ∃ entries, g.content n = .mapping entries := by
  unfold isScalar at hn
  cases fuel with
  | zero => cases h
  | succ fuel =>
    unfold scalarText at h
    split at h
    · rename_i hc
      rw [hc] at hn
      cases hn
    · cases h
    · rename_i entries hc
      exact ⟨entries, hc⟩

/-- **A node that is not made a scalar is a misfit**, unless the text is no document. -/
theorem scalarValue_failsBy (g : Graph) (n : Nat) : FailsBy g.Unfit (g.scalarValue n) := by
  unfold scalarValue
  split
  · rename_i ht
    have misfit : (∃ entries, g.content n = .mapping entries) → ∀ p, g.Misfit p :=
      fun ⟨_, hn⟩ _ => .mapping hn (Or.inl ht)
    refine FailsBy.bind ((g.scalarText_failsBy _ n).imp fun p hp => ?_) fun codes hcodes => ?_
    · exact hp.imp id fun hn => misfit hn p
    · split
      · rename_i hmoment
        rw [Bool.and_eq_true, Bool.not_eq_true'] at hmoment
        exact .error (Or.inr (misfit (mapping_of_scalarText hcodes hmoment.2) _))
      · split
        · rename_i r hr
          obtain ⟨m, hm⟩ := content_of_scalarText hcodes
          exact FailsBy.map fun p hp =>
            Or.inr (.text hm (by rw [hr, hp] : scalarOf? (g.tag n) codes = some (.error p)))
        · exact .ok
  · exact .ok

/-- A misfit was one before. -/
theorem Keeps.unfit {g g' : Graph} {p : Problem} (h : Keeps g g') (hp : g'.Unfit p) : g.Unfit p := by
  rcases hp with hp | hp
  · exact Or.inl hp
  · refine Or.inr ?_
    cases hp with
    | @text n m codes found unfit =>
      rcases h.tag n with ht | ⟨-, ht⟩
      · rw [ht] at unfit
        exact .text ((h.scalar m codes).mp found) unfit
      · -- every text fits the tag of texts
        rw [ht] at unfit
        cases unfit
    | @mapping n entries found unfit =>
      obtain ⟨entries', hn⟩ := (h.mapping n).mp ⟨entries, found⟩
      refine .mapping hn ?_
      rcases h.tag n with ht | ⟨hv, -⟩
      · unfold UnderScalarTag at unfit ⊢
        rwa [ht] at unfit
      · exact Or.inr hv

end Graph

/-! ## 4. Documents -/

namespace Making

open Runbook.Yaml.Graph

variable {g : Graph}

theorem meet_keeping (m : Making) (hm : Keeps g m.graph) (n : Nat) :
    Keeping g.Unfit g Making.graph (m.meet n) := by
  unfold meet
  split
  · exact hm
  · cases hs : m.graph.scalarValue n with
    | error p => exact hm.unfit (m.graph.scalarValue_failsBy n p hs)
    | ok s =>
      cases s with
      | some s => exact hm
      | none =>
        cases hshape : shapeOf? (m.graph.tag n) with
        | some shape =>
          simp only [Except.bind]
          exact hm
        | none =>
          simp only [Except.bind]
          exact Or.inl rfl

theorem meetAll_keeping (m : Making) (hm : Keeps g m.graph) (ns : List Nat) :
    Keeping g.Unfit g Making.graph (m.meetAll ns) := by
  induction ns generalizing m with
  | nil => exact hm
  | cons n rest ih => exact (m.meet_keeping hm n).bind fun m' hm' => ih m' hm'

theorem meetEntries_keeping (entries : List (Nat × Nat)) (m : Making) (hm : Keeps g m.graph)
    (fields : List (Scalar × Nat)) :
    Keeping g.Unfit g (fun r => r.1.graph) (m.meetEntries fields entries) := by
  induction entries generalizing m fields with
  | nil => exact hm
  | cons entry rest ih =>
    obtain ⟨k, v⟩ := entry
    refine (m.meet_keeping hm k).bind fun m' hm' => ?_
    cases hk : m'.keyAt k with
    | error p =>
      unfold keyAt at hk
      split at hk
      · cases hk
      · cases hk
        exact Or.inl rfl
    | ok key => exact (m'.meet_keeping hm' v).bind fun m'' hm'' => ih m'' hm'' _

theorem meetPairs_keeping (ns : List Nat) (m : Making) (hm : Keeps g m.graph) :
    Keeping g.Unfit g (fun r => r.1.graph) (m.meetPairs ns) := by
  induction ns generalizing m with
  | nil => exact hm
  | cons n rest ih =>
    unfold meetPairs
    split
    · exact (m.meetAll_keeping hm _).bind fun m' hm' => (ih m' hm').map fun _ h => h
    · exact Or.inl rfl

theorem fillEntries_keeping (m : Making) (hm : Keeps g m.graph) (n : Nat) :
    Keeping g.Unfit g (fun r => r.1.graph) (m.fillEntries n) := by
  unfold fillEntries
  split
  · rename_i entries hn
    have hflat := ((flatten_keeping (m.graph.entryCount + 1) n [] m.graph ⟨entries, hn⟩).since hm).imp
      (fun p hp => (Or.inl hp : g.Unfit p))
    exact hflat.bind fun g' hg' => meetEntries_keeping _ { m with graph := g' } hg' _
  · exact Or.inl rfl
  · exact Or.inl rfl

theorem fill_keeping (m : Making) (hm : Keeps g m.graph) (n : Nat) (shape : Shape) :
    Keeping g.Unfit g Making.graph (m.fill n shape) := by
  cases shape with
  | items =>
    rw [fill]
    split
    · exact (m.meetAll_keeping hm _).map fun _ h => h
    · exact Or.inl rfl
    · exact Or.inl rfl
  | entries => exact (m.fillEntries_keeping hm n).map fun _ h => h
  | members => exact (m.fillEntries_keeping hm n).map fun _ h => h
  | pairs =>
    rw [fill]
    split
    · exact (meetPairs_keeping _ m hm).map fun _ h => h
    · exact Or.inl rfl
    · exact Or.inl rfl

theorem fillFrom_keeping (fuel position : Nat) (m : Making) (hm : Keeps g m.graph) :
    Keeping g.Unfit g Making.graph (fillFrom fuel position m) := by
  induction fuel generalizing position m with
  | zero => exact hm
  | succ fuel ih =>
    unfold fillFrom
    split
    · exact hm
    · exact (m.fill_keeping hm _ _).bind fun m' hm' => ih _ m' hm'

/-- **A graph that gives no document is no document of the text, or has a misfit.** -/
theorem document_failsBy (g : Graph) : FailsBy g.Unfit (document g) := by
  have hmet := meet_keeping ⟨g, Array.replicate g.size none, #[]⟩ (Keeps.refl g) 0
  exact hmet.failsBy.bind fun m hm =>
    ((fillFrom_keeping (g.size + 1) 0 m (hmet.keeps hm)).failsBy).map

end Making

/-! ## 5. Texts -/

/-- Nodes come of tokens, unless the text is malformed, its collections lie too deep, or something was
wrong behind the last token. -/
theorem ofTokens?_failsBy (ts : List Token) (problem : Option Problem) :
    FailsBy (fun p => Malformed p ∨ (p = .tooDeep ∧ maxNesting < nesting 0 ts) ∨ problem = some p)
      (Node.ofTokens? ts problem) := by
  unfold Node.ofTokens?
  split
  · rename_i hdeep
    exact .error (Or.inr (Or.inl ⟨rfl, hdeep⟩))
  · split
    · split
      · exact .ok
      · exact .error (Or.inl rfl)
    · split
      · exact .error (Or.inl rfl)
      · split
        · exact .error (Or.inr (Or.inr rfl))
        · exact .error (Or.inl rfl)
    · split
      · exact .error (Or.inr (Or.inr rfl))
      · exact .error (Or.inl rfl)
    · rename_i hread _
      exact .error (Or.inl (NodeReader.document_failsBy _ _ _ hread))

/-- **Why a text that is not malformed has no value.** -/
inductive Refusal (text : List Char) (p : Problem) : Prop
  /-- Something is wrong behind the tokens: an escape or a version that is too large. -/
  | token (h : (Token.ofText text).2 = some p)
  | depth (h : p = .tooDeep) (deep : maxNesting < nesting 0 (Token.ofText text).1)
  | misfit {n : Node} {g : Graph}
      (tree : Node.ofTokens? (Token.ofText text).1 (Token.ofText text).2 = .ok (some n))
      (graph : Graph.ofNode n = .ok g) (h : g.Misfit p)

/-- **A text that is not malformed is refused for its tokens, for its depth or for a misfit.** -/
theorem refusal_of_read {text : List Char} {p : Problem} (h : read text = .error p)
    (hp : p.isMalformed = false) : Refusal text p := by
  have sound : ¬ Malformed p := fun hm => by
    rw [show p.isMalformed = true from hm] at hp
    cases hp
  unfold read at h
  split at h
  · rcases bind_eq_error.mp h with h | ⟨n, htree, h⟩
    · rcases ofTokens?_failsBy _ _ p h with hm | ⟨rfl, hdeep⟩ | htoken
      · exact absurd hm sound
      · exact .depth rfl hdeep
      · exact .token htoken
    · cases n with
      | none => cases h
      | some n =>
        rcases bind_eq_error.mp h with h | ⟨g, hgraph, h⟩
        · exact absurd (Draft.node_failsBy _ _ p (map_eq_error.mp h)) sound
        · rcases Making.document_failsBy g p h with hm | hmisfit
          · exact absurd hm sound
          · exact .misfit htree hgraph hmisfit
  · cases h
    exact absurd rfl sound

end Runbook.Yaml
