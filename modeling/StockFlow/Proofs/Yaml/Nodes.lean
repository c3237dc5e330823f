import StockFlow.Proofs.Yaml.Failures
import StockFlow.Yaml.Node
/-!
# Failures of nodes

The second stage of reading a YAML text makes nodes of the tokens. It refuses the text, or it passes on
what ended the tokens, where it asks for the next one (`Yaml.failsIn_ofTokens?`).
-/

namespace StockFlow.Yaml

open Outcome

/-- A computation that reads nodes refuses the text, or it passes on what ended the tokens. -/
def NodeReader.Faults {α : Type} (x : NodeReader α) : Prop :=
  ∀ ctx : NodeContext,
    Keeps (fun _ => True) (fun failure => failure = invalid ∨ failure = ctx.stop) (x.run ctx)

namespace NodeReader

variable {α β : Type}

lemma faults_pure (a : α) : Faults (pure a) := fun _ => keeps_pure a

lemma faults_get : Faults get := fun _ => keeps_get

lemma faults_set (s : NodeState) : Faults (set s) := fun _ => keeps_set trivial

lemma faults_modify (f : NodeState → NodeState) : Faults (modify f) :=
  fun _ => keeps_modify fun _ _ => trivial

lemma faults_read : Faults read := fun ctx => keeps_pure ctx

lemma faults_invalid : Faults (throw invalid : NodeReader α) := fun _ => keeps_throw (Or.inl rfl)

lemma Faults.bind {x : NodeReader α} {f : α → NodeReader β} (hx : Faults x)
    (hf : ∀ a, Faults (f a)) : Faults (x >>= f) := by
  intro ctx
  rw [ReaderT.run_bind]
  exact (hx ctx).bind fun a => hf a ctx

/-- Without a next token there is the failure that ended the tokens. -/
lemma faults_peek : Faults peek := by
  intro ctx s _
  obtain ⟨_ | ⟨t, tokens⟩, anchors, nodes, unfinished, knotted⟩ := s
  · exact Or.inr rfl
  · exact trivial

lemma faults_skip : Faults skip := faults_modify _

lemma faults_expandTag (handle : Option String) (suffix : String) :
    Faults (expandTag handle suffix) := by
  unfold expandTag
  split
  · exact faults_pure _
  · refine faults_read.bind fun ctx => ?_
    split
    · exact faults_pure _
    · exact faults_invalid

lemma faults_properties : Faults properties := by
  unfold properties
  refine faults_peek.bind fun t => ?_
  split
  · refine faults_skip.bind fun _ => faults_peek.bind fun t => ?_
    split
    · exact faults_skip.bind fun _ => (faults_expandTag _ _).bind fun _ => faults_pure _
    · exact faults_pure _
  · refine faults_skip.bind fun _ => faults_peek.bind fun t => ?_
    split
    · exact faults_skip.bind fun _ => (faults_expandTag _ _).bind fun _ => faults_pure _
    · exact (faults_expandTag _ _).bind fun _ => faults_pure _
  · exact faults_pure _

lemma faults_add (anchor : Option String) (node : Node) : Faults (add anchor node) := by
  unfold add
  refine faults_get.bind fun s => ?_
  dsimp only
  split
  · exact (faults_set _).bind fun _ => faults_pure _
  · split
    · exact faults_invalid.bind fun _ => (faults_set _).bind fun _ => faults_pure _
    · exact (faults_set _).bind fun _ => faults_pure _

lemma faults_addEmpty : Faults addEmpty := faults_add _ _

lemma faults_addCollection {anchor : Option String} {tag : Tag} {body : List α → NodeBody}
    {parts : NodeReader (List α)} (h : Faults parts) :
    Faults (addCollection anchor tag body parts) := by
  unfold addCollection
  refine (faults_add _ _).bind fun id => (faults_modify _).bind fun _ => ?_
  exact h.bind fun items => (faults_modify _).bind fun _ => faults_pure _

lemma faults_resolve (name : String) : Faults (resolve name) := by
  unfold resolve
  refine faults_get.bind fun s => ?_
  split
  · exact (faults_set _).bind fun _ => faults_pure _
  · exact faults_invalid

/-- Between brackets an item or an entry that is not the first one stands behind a comma. -/
lemma faults_afterComma {first : Bool} {t : Token} {next : Unit → NodeReader α}
    (h : ∀ u, Faults (next u)) :
    Faults
      (if !first then
        if t != .flowEntry then throw invalid >>= fun _ : Unit => skip >>= next else skip >>= next
      else next ()) := by
  split
  · split
    · exact faults_invalid.bind fun _ => faults_skip.bind h
    · exact faults_skip.bind h
  · exact h ()

/-- The readers of nodes fail only in the ways of texts, with the given fuel. -/
structure NodesFault (fuel : Nat) : Prop where
  node : ∀ inBlock indentless, Faults (node fuel inBlock indentless)
  nodeUnless : ∀ inBlock indentless ends, Faults (nodeUnless fuel inBlock indentless ends)
  valueNode : ∀ inBlock ends, Faults (valueNode fuel inBlock ends)
  blockItems : Faults (blockItems fuel)
  indentlessItems : Faults (indentlessItems fuel)
  blockPairs : Faults (blockPairs fuel)
  flowItems : ∀ first, Faults (flowItems fuel first)
  flowPair : Faults (flowPair fuel)
  flowPairs : ∀ first, Faults (flowPairs fuel first)

/-- Without fuel the readers of nodes refuse the text. -/
lemma nodesFault_zero : NodesFault 0 where
  node _ _ := faults_invalid
  nodeUnless _ _ _ := faults_invalid
  valueNode _ _ := faults_invalid
  blockItems := faults_invalid
  indentlessItems := faults_invalid
  blockPairs := faults_invalid
  flowItems _ := faults_invalid
  flowPair := faults_invalid
  flowPairs _ := faults_invalid

namespace NodesFault

variable {fuel : Nat} (h : NodesFault fuel)

include h

lemma node_succ (inBlock indentless : Bool) : Faults (NodeReader.node (fuel + 1) inBlock indentless) := by
  unfold NodeReader.node
  refine faults_peek.bind fun t => ?_
  split
  · exact faults_skip.bind fun _ => faults_resolve _
  · refine faults_properties.bind fun p => faults_peek.bind fun t => ?_
    split
    · exact faults_addCollection h.indentlessItems
    · exact faults_skip.bind fun _ => faults_add _ _
    · exact faults_skip.bind fun _ => faults_addCollection (h.flowItems true)
    · exact faults_skip.bind fun _ => faults_addCollection (h.flowPairs true)
    · exact faults_skip.bind fun _ => faults_addCollection h.blockItems
    · exact faults_skip.bind fun _ => faults_addCollection h.blockPairs
    · split
      · exact faults_add _ _
      · exact faults_invalid

lemma nodeUnless_succ (inBlock indentless : Bool) (ends : Token → Bool) :
    Faults (NodeReader.nodeUnless (fuel + 1) inBlock indentless ends) := by
  unfold NodeReader.nodeUnless
  refine faults_peek.bind fun t => ?_
  split
  · exact faults_addEmpty
  · exact h.node _ _

lemma valueNode_succ (inBlock : Bool) (ends : Token → Bool) :
    Faults (NodeReader.valueNode (fuel + 1) inBlock ends) := by
  unfold NodeReader.valueNode
  refine faults_peek.bind fun t => ?_
  split
  · exact faults_skip.bind fun _ => h.nodeUnless _ _ _
  · exact faults_addEmpty

lemma blockItems_succ : Faults (NodeReader.blockItems (fuel + 1)) := by
  unfold NodeReader.blockItems
  refine faults_peek.bind fun t => ?_
  split
  · refine faults_skip.bind fun _ => (h.nodeUnless _ _ _).bind fun item => ?_
    exact h.blockItems.bind fun _ => faults_pure _
  · exact faults_skip.bind fun _ => faults_pure _
  · exact faults_invalid

lemma indentlessItems_succ : Faults (NodeReader.indentlessItems (fuel + 1)) := by
  unfold NodeReader.indentlessItems
  refine faults_peek.bind fun t => ?_
  split
  · refine faults_skip.bind fun _ => (h.nodeUnless _ _ _).bind fun item => ?_
    exact h.indentlessItems.bind fun _ => faults_pure _
  · exact faults_pure _

lemma blockPairs_succ : Faults (NodeReader.blockPairs (fuel + 1)) := by
  unfold NodeReader.blockPairs
  refine faults_peek.bind fun t => ?_
  split
  · refine faults_skip.bind fun _ => (h.nodeUnless _ _ _).bind fun key => ?_
    exact (h.valueNode _ _).bind fun _ => h.blockPairs.bind fun _ => faults_pure _
  · exact faults_skip.bind fun _ => faults_pure _
  · exact faults_invalid

lemma flowPair_succ : Faults (NodeReader.flowPair (fuel + 1)) := by
  unfold NodeReader.flowPair
  refine (h.nodeUnless _ _ _).bind fun key => (h.valueNode _ _).bind fun value => ?_
  exact faults_peek.bind fun _ => faults_pure _

lemma flowItems_succ (first : Bool) : Faults (NodeReader.flowItems (fuel + 1) first) := by
  unfold NodeReader.flowItems
  refine faults_peek.bind fun t => ?_
  split
  · exact faults_skip.bind fun _ => faults_pure _
  · refine faults_afterComma fun _ => faults_peek.bind fun t => ?_
    split
    · exact faults_skip.bind fun _ => faults_pure _
    · refine faults_skip.bind fun _ => (faults_addCollection h.flowPair).bind fun item => ?_
      exact (h.flowItems _).bind fun _ => faults_pure _
    · exact (h.node _ _).bind fun item => (h.flowItems _).bind fun _ => faults_pure _

lemma flowPairs_succ (first : Bool) : Faults (NodeReader.flowPairs (fuel + 1) first) := by
  unfold NodeReader.flowPairs
  refine faults_peek.bind fun t => ?_
  split
  · exact faults_skip.bind fun _ => faults_pure _
  · refine faults_afterComma fun _ => faults_peek.bind fun t => ?_
    split
    · exact faults_skip.bind fun _ => faults_pure _
    · refine faults_skip.bind fun _ => (h.nodeUnless _ _ _).bind fun key => ?_
      exact (h.valueNode _ _).bind fun _ => (h.flowPairs _).bind fun _ => faults_pure _
    · refine (h.node _ _).bind fun key => faults_addEmpty.bind fun value => ?_
      exact (h.flowPairs _).bind fun _ => faults_pure _

/-- One more unit of fuel. -/
lemma succ : NodesFault (fuel + 1) where
  node := h.node_succ
  nodeUnless := h.nodeUnless_succ
  valueNode := h.valueNode_succ
  blockItems := h.blockItems_succ
  indentlessItems := h.indentlessItems_succ
  blockPairs := h.blockPairs_succ
  flowItems := h.flowItems_succ
  flowPair := h.flowPair_succ
  flowPairs := h.flowPairs_succ

end NodesFault

/-- The readers of nodes fail only in the ways of texts. -/
lemma nodesFault (fuel : Nat) : NodesFault fuel := by
  induction fuel with
  | zero => exact nodesFault_zero
  | succ fuel ih => exact ih.succ

/-- A directive that does not fit refuses the text. -/
lemma faults_applyDirective (state : Bool × List (String × String)) (d : Directive) :
    Faults (liftM (applyDirective state d)) := by
  refine fun _ => keeps_lift fun failure h => Or.inl ?_
  unfold applyDirective at h
  split at h
  · split at h <;> cases h
    rfl
  · split at h <;> cases h
    rfl
  · cases h

lemma faults_directives (most : Nat) (state : Bool × List (String × String)) :
    Faults (directives most state) := by
  induction most generalizing state with
  | zero => exact faults_pure _
  | succ most ih =>
    unfold directives
    refine faults_peek.bind fun t => ?_
    split
    · refine faults_skip.bind fun _ => ?_
      exact (faults_applyDirective _ _).bind fun state => ih state
    · exact faults_pure _

lemma faults_skipEnds (most : Nat) : Faults (skipEnds most) := by
  induction most with
  | zero => exact faults_pure _
  | succ most ih =>
    unfold skipEnds
    refine faults_peek.bind fun t => ?_
    split
    · exact faults_skip.bind fun _ => ih
    · exact faults_pure _

lemma faults_finish (most : Nat) : Faults (finish most) := by
  unfold finish
  refine (faults_skipEnds most).bind fun _ => faults_peek.bind fun t => ?_
  split
  · exact faults_pure _
  · refine (faults_directives _ _).bind fun _ => faults_peek.bind fun _ => ?_
    exact faults_invalid

/-- Other expansions of tag handles do not change how a computation fails. -/
lemma Faults.withReader {x : NodeReader α} (hx : Faults x) {f : NodeContext → NodeContext}
    (hf : ∀ ctx, (f ctx).stop = ctx.stop) : Faults (withReader f x) := by
  intro ctx
  have h := hx (f ctx)
  rwa [hf] at h

lemma faults_document? (most : Nat) : Faults (document? most) := by
  have hnodes := nodesFault (4 * most + 4)
  unfold document?
  refine faults_peek.bind fun t => ?_
  split
  · exact faults_pure _
  -- a document that is started goes on like one that directives come before
  iterate 2
    · refine (faults_directives _ _).bind fun given => faults_peek.bind fun t => ?_
      split
      · refine faults_skip.bind fun _ => ?_
        dsimp only
        have hroot := hnodes.nodeUnless true false endsDocument
        refine (hroot.withReader fun ctx => by rfl).bind fun root => ?_
        exact (faults_finish _).bind fun _ => faults_pure _
      · exact faults_invalid
  · exact (hnodes.node _ _).bind fun root => (faults_finish _).bind fun _ => faults_pure _

end NodeReader

/-- The tokens of a text make nodes, or the text is refused, or what ended them is passed on. -/
lemma failsIn_ofTokens? (tokens : List Token) (failure? : Option Failure) :
    FailsIn (fun failure => failure = invalid ∨ failure? = some failure)
      (Composition.ofTokens? tokens failure?) := by
  intro failure h
  unfold Composition.ofTokens? at h
  extract_lets ctx at h
  rcases bind_eq_error_iff.mp h with hread | ⟨result, -, hresult⟩
  · have hfaults := NodeReader.faults_document? tokens.length ctx { tokens } trivial
    rcases hfaults.failsIn failure hread with rfl | rfl
    · exact Or.inl rfl
    · cases failure? with
      | none => exact Or.inl rfl
      | some failure => exact Or.inr rfl
  · cases hresult

end StockFlow.Yaml
