import StockFlow.Proofs.Document.Modes
import StockFlow.Proofs.Outcome
/-!
# Embedded sheets

A sheet and those that it embeds make a tree: every identifier that a sheet embeds is a child, and a
sheet that is embedded twice occurs twice. What the sheets have to say is read off this tree, without
regard to how they are loaded: a sheet lists what its own entry has under a key (`EmbedTree.listed?`), and
several sheets one after the other list what each of them does (`EmbedTree.gathered?`).

Loading goes through this tree in preorder, in either mode. The declarations of a loaded document are
those of the occurrences one after the other, every occurrence below the root is fetched once, the tables
that are named by identifiers are fetched after all of them, and only the root decides about title, unit
and size (`Loader.inlines_of_run`).
-/

namespace StockFlow

/-! ## What loadings fetch -/

namespace Load

variable {α β : Type} {P : α → List Text → Prop} {Q : β → List Text → Prop}

/-- What a loading gives when it succeeds, together with the identifiers that it fetches, in order. -/
def Logs (x : Load α) (P : α → List Text → Prop) : Prop :=
  ∀ fetched a fetched', x.run.run fetched = (.ok a, fetched') →
    ∃ log, fetched' = fetched ++ log ∧ P a log

/-- A value is given without fetching. -/
lemma logs_pure {a : α} (h : P a []) : Logs (pure a) P := by
  intro fetched b fetched' hrun
  cases hrun
  exact ⟨[], (List.append_nil fetched).symm, h⟩

/-- A loading that fails gives nothing. -/
lemma logs_throw (failure : Failure) : Logs (throw failure : Load α) P := by
  intro fetched a fetched' hrun
  cases hrun

/-- A computation that fetches nothing gives its result. -/
lemma logs_ofExcept (x : Except Failure α) :
    Logs (Load.ofExcept x) fun a log => x = .ok a ∧ log = [] := by
  cases x with
  | ok a => exact logs_pure ⟨rfl, rfl⟩
  | error failure => exact logs_throw failure

/-- What a loading gives and fetches, said in another way. -/
lemma Logs.imp {x : Load α} {P' : α → List Text → Prop} (hx : Logs x P)
    (h : ∀ a log, P a log → P' a log) : Logs x P' := by
  intro fetched a fetched' hrun
  obtain ⟨log, hlog, ha⟩ := hx fetched a fetched' hrun
  exact ⟨log, hlog, h a log ha⟩

/-- Of two loadings one after the other, the second one fetches after the first. -/
lemma Logs.bind {x : Load α} {f : α → Load β} (hx : Logs x P)
    (hf : ∀ a log, P a log → Logs (f a) fun b log' => Q b (log ++ log')) : Logs (x >>= f) Q := by
  intro fetched b fetched' hrun
  rw [ExceptT.run_bind, StateT.run_bind] at hrun
  cases hfirst : x.run.run fetched with
  | mk result between =>
    rw [hfirst] at hrun
    cases result with
    | error failure => cases hrun
    | ok a =>
      obtain ⟨log, rfl, ha⟩ := hx fetched a between hfirst
      obtain ⟨log', rfl, hb⟩ := hf a log ha (fetched ++ log) b fetched' hrun
      exact ⟨log ++ log', List.append_assoc fetched log log', hb⟩

/-- Loadings for the members of a list fetch one after the other. -/
lemma logs_mapM {f : α → Load β} {R : α → β → List Text → Prop}
    {S : List α → List β → List Text → Prop} (hf : ∀ a, Logs (f a) (R a)) (hnil : S [] [] [])
    (hcons : ∀ a b log as bs log', R a b log → S as bs log' → S (a :: as) (b :: bs) (log ++ log'))
    (as : List α) : Logs (as.mapM f) (S as) := by
  induction as with
  | nil => exact logs_pure hnil
  | cons a as ih =>
    rw [List.mapM_cons]
    refine (hf a).bind fun b log hb => ih.bind fun bs log' hbs => logs_pure ?_
    rw [List.append_nil]
    exact hcons a b log as bs log' hb hbs

end Load

/-! ## Trees of embedded sheets -/

/-- A sheet, with its identifier and the sheets that it embeds. -/
inductive EmbedTree where
  | node (source : Text) (sheet : Entries) (children : List EmbedTree)

namespace EmbedTree

/-- The identifier of the root. -/
def source : EmbedTree → Text
  | .node source _ _ => source

/-- The sheet at the root. -/
def sheet : EmbedTree → Entries
  | .node _ sheet _ => sheet

/-- The trees of the sheets that the root embeds. -/
def children : EmbedTree → List EmbedTree
  | .node _ _ children => children

mutual

/-- The occurrences of sheets, each one before those that it embeds. -/
def preorder : EmbedTree → List EmbedTree
  | .node source sheet children => .node source sheet children :: preorderAll children

/-- The occurrences of sheets in several trees, one tree after the other. -/
def preorderAll : List EmbedTree → List EmbedTree
  | [] => []
  | tree :: trees => preorder tree ++ preorderAll trees

end

/-- The occurrences of the sheets that are embedded: all but the root. -/
def embedded (tree : EmbedTree) : List EmbedTree := preorderAll tree.children

/-! ### What sheets list -/

section Listings

variable {α : Type} {tree : EmbedTree} {trees trees' : List EmbedTree}

/-- What the sheet at the root lists under a key: the parts of what it has there, which may be of some kind
only, and nothing where it has nothing that counts as given. -/
def listed? (tree : EmbedTree) (key : Text) (parts? : Datum → Option (List α)) : Option (List α) :=
  if (Entries.get tree.sheet key).isTruthy then parts? (Entries.get tree.sheet key) else some []

/-- The declarations of nodes of the sheet at the root itself. -/
def ownNodes? (tree : EmbedTree) : Option (List Datum) := tree.listed? "nodes" Datum.elements?

/-- What the sheet at the root itself embeds, which has to be in a list. -/
def ownEmbeds? (tree : EmbedTree) : Option (List Datum) := tree.listed? "embed" Datum.items?

/-- The tables of the sheet at the root itself, each of them for a language. -/
def ownReferences? (tree : EmbedTree) : Option (List Reference) := do
  let entries ← tree.listed? "translations" Datum.fields?
  entries.mapM fun (language, table) => do
    let language ← (Datum.atom language).display?
    return { language, table }

/-- What some sheets list, one sheet after the other. -/
def gathered? (own? : EmbedTree → Option (List α)) (trees : List EmbedTree) : Option (List α) :=
  List.flatten <$> trees.mapM own?

/-- What one more sheet lists comes first. -/
lemma gathered?_cons {own? : EmbedTree → Option (List α)} {own rest : List α}
    (h : own? tree = some own) (hrest : gathered? own? trees = some rest) :
    gathered? own? (tree :: trees) = some (own ++ rest) := by
  obtain ⟨lists, hlists, rfl⟩ := Option.map_eq_some_iff.mp hrest
  unfold gathered?
  rw [List.mapM_cons, h, hlists]
  rfl

/-- What sheets list is listed by the first of them or by the others. -/
lemma gathered?_append_eq_some_iff {own? : EmbedTree → Option (List α)} {all : List α} :
    gathered? own? (trees ++ trees') = some all ↔
      ∃ first second, gathered? own? trees = some first ∧ gathered? own? trees' = some second ∧
        all = first ++ second := by
  unfold gathered?
  rw [List.mapM_append]
  cases trees.mapM own? with
  | none => simp
  | some lists =>
    cases trees'.mapM own? with
    | none => simp
    | some lists' => simp [eq_comm]

/-- The declarations that are loaded of a sheet are those that it lists. -/
lemma ownNodes?_eq {nodes : List Datum} (h : nodesOf tree.sheet = .ok nodes) :
    tree.ownNodes? = some nodes := by
  unfold nodesOf Datum.givenElements at h
  unfold ownNodes? listed?
  split at h
  · next hgiven =>
    rw [if_pos hgiven]
    split at h
    · next items hitems =>
      cases h
      exact hitems
    · cases h
  · next hgiven =>
    cases h
    rw [if_neg hgiven]

/-- The identifiers that are read off a sheet are those that it lists. -/
lemma ownEmbeds?_eq {source : Text} {identifiers : List Text}
    (h : embedsOf tree.sheet source = .ok identifiers) :
    tree.ownEmbeds? = some (identifiers.map Datum.text) := by
  unfold embedsOf at h
  unfold ownEmbeds? listed?
  dsimp only at h
  split at h
  · next hempty =>
    cases h
    rw [if_neg (by simpa using hempty)]
    rfl
  · next hgiven =>
    rw [if_pos (by simpa using hgiven)]
    split at h
    · next items hitems =>
      rw [hitems]
      apply congrArg some
      rw [← List.forall₂_eq_eq_eq, List.forall₂_map_right_iff]
      apply (Outcome.mapM_eq_ok_iff.mp h).imp
      intro item identifier hread
      split at hread
      · cases hread
        rfl
      · obtain ⟨_, -, hthrown⟩ := Outcome.bind_eq_ok_iff.mp hread
        cases hthrown
    · obtain ⟨_, -, hthrown⟩ := Outcome.bind_eq_ok_iff.mp h
      cases hthrown

/-- The references that are loaded of a sheet are those that it lists. -/
lemma ownReferences?_eq {source : Text} {references : List Reference}
    (h : referencesOf tree.sheet source = .ok references) : tree.ownReferences? = some references := by
  unfold referencesOf at h
  unfold ownReferences? listed?
  dsimp only at h
  split at h
  · next hempty =>
    cases h
    rw [if_neg (by simpa using hempty)]
    rfl
  · next hgiven =>
    rw [if_pos (by simpa using hgiven)]
    split at h
    · next entries hentries =>
      rw [hentries]
      apply Outcome.mapM_eq_some_of_mapM_eq_ok ?_ h
      rintro ⟨language, table⟩ reference hreference
      obtain ⟨shown, hshown, hpure⟩ := Outcome.bind_eq_ok_iff.mp hreference
      cases hpure
      unfold Datum.displayed at hshown
      split at hshown
      · next s hs =>
        cases hshown
        simp only [hs, Option.bind_eq_bind, Option.bind_some]
        rfl
      · cases hshown
    · cases h

end Listings

/-- Nodes, references and identifiers are those of some sheets, one sheet after the other. -/
structure Gathers (trees : List EmbedTree) (nodes : List Datum) (references : List Reference)
    (log : List Text) : Prop where
  nodes : gathered? ownNodes? trees = some nodes
  references : gathered? ownReferences? trees = some references
  log : log = trees.map EmbedTree.source

/-- Nothing is gathered from no sheets. -/
lemma gathers_nil : Gathers [] [] [] [] := ⟨rfl, rfl, rfl⟩

/-- What is gathered from one more sheet. -/
lemma Gathers.cons {tree : EmbedTree} {trees : List EmbedTree} {nodes nodes' : List Datum}
    {references references' : List Reference} {log : List Text}
    (hnodes : nodesOf tree.sheet = .ok nodes)
    (hreferences : referencesOf tree.sheet tree.source = .ok references)
    (h : Gathers trees nodes' references' log) :
    Gathers (tree :: trees) (nodes ++ nodes') (references ++ references') (tree.source :: log) where
  nodes := gathered?_cons (ownNodes?_eq hnodes) h.nodes
  references := gathered?_cons (ownReferences?_eq hreferences) h.references
  log := by rw [h.log, List.map_cons]

/-- What is gathered from more sheets. -/
lemma Gathers.append {trees trees' : List EmbedTree} {nodes nodes' : List Datum}
    {references references' : List Reference} {log log' : List Text}
    (h : Gathers trees nodes references log) (h' : Gathers trees' nodes' references' log') :
    Gathers (trees ++ trees') (nodes ++ nodes') (references ++ references') (log ++ log') where
  nodes := gathered?_append_eq_some_iff.mpr ⟨_, _, h.nodes, h'.nodes, rfl⟩
  references := gathered?_append_eq_some_iff.mpr ⟨_, _, h.references, h'.references, rfl⟩
  log := by rw [h.log, h'.log, List.map_append]

/-- Occurrences with the same identifiers in the same order are the same, if the identifier decides
about each of them. -/
lemma eq_of_map_source_eq {trees trees' : List EmbedTree}
    (hsources : trees.map EmbedTree.source = trees'.map EmbedTree.source)
    (h : ∀ tree ∈ trees, ∀ tree' ∈ trees', tree.source = tree'.source → tree = tree') :
    trees = trees' := by
  have hlength : trees.length = trees'.length := by
    simpa only [List.length_map] using congrArg List.length hsources
  refine List.ext_getElem hlength fun i hi hi' => ?_
  refine h _ (List.getElem_mem hi) _ (List.getElem_mem hi') ?_
  have hget : (trees.map EmbedTree.source)[i]? = (trees'.map EmbedTree.source)[i]? := by
    rw [hsources]
  rw [List.getElem?_map, List.getElem?_map, List.getElem?_eq_getElem hi,
    List.getElem?_eq_getElem hi'] at hget
  exact Option.some.inj hget

end EmbedTree

/-- The identifier of the table that a reference stands for, unless the table is given inline. -/
def Reference.identifier? (r : Reference) : Option Text :=
  match r.table with
  | .text identifier => some identifier
  | _ => none

namespace Loader

/-- The text of the document of an identifier. -/
def document (l : Loader) (identifier : Text) : Except Failure Text :=
  match l.files? with
  | none => .error (.load (.noFiles identifier))
  | some files => files.fetch l.mode identifier

/-- The sheet of an identifier. -/
def sheetAt (l : Loader) (identifier : Text) : Except Failure Entries := do
  l.decodeSheet identifier (← l.document identifier)

/-- A tree has one child for every identifier that a sheet in it embeds, in order, with the sheet of
that identifier. -/
inductive Unfolds (l : Loader) : EmbedTree → Prop where
  | node {source : Text} {sheet : Entries} {children : List EmbedTree}
      (embeds : (EmbedTree.node source sheet children).ownEmbeds? =
        some ((children.map EmbedTree.source).map Datum.text))
      (sheets : ∀ tree ∈ children, l.sheetAt tree.source = .ok tree.sheet)
      (unfolds : ∀ tree ∈ children, l.Unfolds tree) : l.Unfolds (.node source sheet children)

/-- The tree of the sheet of a text and of those that it embeds. -/
structure IsEmbedTree (l : Loader) (text source : Text) (tree : EmbedTree) : Prop where
  root : tree.source = source
  sheet : l.decodeSheet source text = .ok tree.sheet
  unfolds : l.Unfolds tree

/-- A document is the one of a tree, read in preorder, and these are the identifiers fetched for it:
first those of the sheets below the root, then those of the tables. -/
structure Inlines (l : Loader) (tree : EmbedTree) (doc : Document) (fetched : List Text) : Prop where
  nodes : EmbedTree.gathered? EmbedTree.ownNodes? tree.preorder = some doc.nodes
  fetched : ∃ references, EmbedTree.gathered? EmbedTree.ownReferences? tree.preorder = some references ∧
    fetched = tree.embedded.map EmbedTree.source ++ references.filterMap Reference.identifier?
  title : doc.title = Entries.get tree.sheet "title"
  unit : doc.unit = Entries.get tree.sheet "unit"
  width : doc.width = (Entries.get tree.sheet "width").orElse (.int l.settings.defaultWidth)
  height : doc.height = (Entries.get tree.sheet "height").orElse (.int l.settings.defaultHeight)

variable {l : Loader}

/-- A sheet has only one tree. -/
theorem Unfolds.unique {tree tree' : EmbedTree} (h : l.Unfolds tree) (h' : l.Unfolds tree')
    (hsource : tree.source = tree'.source) (hsheet : tree.sheet = tree'.sheet) : tree = tree' := by
  induction h generalizing tree' with
  | @node source sheet children hembeds hsheets _ ih =>
    obtain @⟨source', sheet', children', hembeds', hsheets', hunfolds'⟩ := h'
    obtain rfl : source = source' := hsource
    obtain rfl : sheet = sheet' := hsheet
    have hsources : children.map EmbedTree.source = children'.map EmbedTree.source := by
      apply List.map_injective_iff.mpr fun _ _ h => Atom.text.inj (Datum.atom.inj h)
      exact Option.some.inj (hembeds.symm.trans hembeds')
    congr 1
    refine EmbedTree.eq_of_map_source_eq hsources fun child hchild child' hchild' heq => ?_
    have hinner := hsheets child hchild
    rw [heq, hsheets' child' hchild'] at hinner
    exact ih child hchild (hunfolds' child' hchild') heq (Except.ok.inj hinner).symm

/-- A text has only one tree. -/
lemma IsEmbedTree.unique {text source : Text} {tree tree' : EmbedTree}
    (h : l.IsEmbedTree text source tree) (h' : l.IsEmbedTree text source tree') : tree = tree' := by
  have hsheet := h.sheet
  rw [h'.sheet] at hsheet
  exact h.unfolds.unique h'.unfolds (h.root.trans h'.root.symm) (Except.ok.inj hsheet).symm

/-! ## Loading in preorder -/

/-- The document of an identifier is fetched once. -/
lemma logs_fetch (identifier : Text) :
    (l.fetch identifier).Logs fun text log => l.document identifier = .ok text ∧ log = [identifier] := by
  unfold document
  cases hfiles : l.files? with
  | none =>
    rw [l.fetch_of_files?_eq_none hfiles]
    exact Load.logs_throw _
  | some files =>
    rw [l.fetch_of_files?_eq_some hfiles]
    intro fetched text fetched' hrun
    rw [ExceptT.run_bind, StateT.run_bind] at hrun
    cases hfetch : files.fetch l.mode identifier with
    | error failure =>
      rw [hfetch] at hrun
      cases hrun
    | ok text' =>
      rw [hfetch] at hrun
      cases hrun
      exact ⟨[identifier], rfl, hfetch, rfl⟩

/-- What is loaded for an identifier, given what is loaded of the sheets inside its sheet. The
identifier is new on the trail and is fetched before all of them. -/
lemma logs_occurrence {depth : Nat} {trail : List Text} {identifier : Text}
    {P : Entries → List Datum × List Reference → List Text → Prop}
    (h : ∀ inner, (l.embedded depth (trail ++ [identifier]) inner).Logs (P inner)) :
    (l.occurrence depth trail identifier).Logs fun part log => identifier ∉ trail ∧
      ∃ inner nodes references parts log', l.sheetAt identifier = .ok inner ∧
        nodesOf inner = .ok nodes ∧ referencesOf inner identifier = .ok references ∧
        P inner parts log' ∧ part = (nodes ++ parts.1, references ++ parts.2) ∧
        log = identifier :: log' := by
  unfold occurrence
  dsimp only
  split
  · exact (Load.logs_throw (P := fun _ _ => False) _).bind fun _ _ h => h.elim
  · next hnew =>
    refine (l.logs_fetch identifier).bind ?_
    rintro text _ ⟨htext, rfl⟩
    refine (Load.logs_ofExcept _).bind ?_
    rintro inner _ ⟨hinner, rfl⟩
    refine (Load.logs_ofExcept _).bind ?_
    rintro nodes _ ⟨hnodes, rfl⟩
    refine (Load.logs_ofExcept _).bind ?_
    rintro references _ ⟨hreferences, rfl⟩
    refine (h inner).bind fun parts log' hparts => Load.logs_pure ?_
    have hsheet : l.sheetAt identifier = .ok inner :=
      Outcome.bind_eq_ok_iff.mpr ⟨text, htext, hinner⟩
    refine ⟨by simpa using hnew, inner, nodes, references, parts, log', hsheet, hnodes, hreferences,
      hparts, rfl, ?_⟩
    rw [List.append_nil]
    rfl

/-- The sheets that a sheet embeds make its tree, and what is loaded is gathered from it in
preorder. -/
lemma logs_embedded (depth : Nat) {trail : List Text} {source : Text} (sheet : Entries)
    (hlast : trail.getLast? = some source) :
    (l.embedded depth trail sheet).Logs fun parts log =>
      ∃ children, l.Unfolds (.node source sheet children) ∧
        EmbedTree.Gathers (EmbedTree.preorderAll children) parts.1 parts.2 log := by
  induction depth generalizing trail source sheet with
  | zero =>
    rw [embedded_zero]
    exact Load.logs_throw _
  | succ depth ih =>
    rw [embedded_succ, hlast]
    refine (Load.logs_ofExcept _).bind ?_
    rintro identifiers _ ⟨hembeds, rfl⟩
    -- every identifier has a tree of its own, and the trees are gathered side by side
    refine (Load.logs_mapM
      (R := fun identifier part log => ∃ tree : EmbedTree, tree.source = identifier ∧
        l.sheetAt tree.source = .ok tree.sheet ∧ l.Unfolds tree ∧
        EmbedTree.Gathers tree.preorder part.1 part.2 log)
      (S := fun identifiers parts log => ∃ children : List EmbedTree,
        children.map EmbedTree.source = identifiers ∧
        (∀ tree ∈ children, l.sheetAt tree.source = .ok tree.sheet ∧ l.Unfolds tree) ∧
        EmbedTree.Gathers (EmbedTree.preorderAll children) (parts.flatMap Prod.fst)
          (parts.flatMap Prod.snd) log)
      (fun identifier => ?_) ?_ ?_ identifiers).bind ?_
    · refine (l.logs_occurrence fun inner => ih inner List.getLast?_concat).imp ?_
      rintro part log ⟨-, inner, nodes, references, parts, log', hsheet, hnodes, hreferences,
        ⟨children, hunfolds, hgathers⟩, rfl, rfl⟩
      refine ⟨.node identifier inner children, rfl, hsheet, hunfolds, ?_⟩
      exact hgathers.cons hnodes hreferences
    · exact ⟨[], rfl, fun _ h => absurd h List.not_mem_nil, EmbedTree.gathers_nil⟩
    · rintro identifier part log identifiers parts log' ⟨tree, rfl, hsheet, hunfolds, hgathers⟩
        ⟨children, rfl, hall, hrest⟩
      exact ⟨tree :: children, rfl, List.forall_mem_cons.mpr ⟨⟨hsheet, hunfolds⟩, hall⟩,
        hgathers.append hrest⟩
    · rintro parts log ⟨children, rfl, hall, hgathers⟩
      refine Load.logs_pure ⟨children, ?_, ?_⟩
      · exact .node (EmbedTree.ownEmbeds?_eq hembeds) (fun tree h => (hall tree h).1) fun tree h =>
          (hall tree h).2
      · rw [List.append_nil]
        exact hgathers

/-- The entries of a table are fetched once, unless the table is given inline. -/
lemma logs_tableOf (r : Reference) :
    (l.tableOf r).Logs fun _ log => log = r.identifier?.toList := by
  rw [tableOf_eq]
  split
  · next identifier htable =>
    have hidentifier : r.identifier? = some identifier := by
      unfold Reference.identifier?
      rw [htable]
    rw [hidentifier]
    refine (l.logs_fetch identifier).bind ?_
    rintro text _ ⟨-, rfl⟩
    refine (Load.logs_ofExcept _).bind ?_
    rintro table _ ⟨-, rfl⟩
    split
    · refine (Load.logs_ofExcept _).imp fun _ log h => ?_
      rw [h.2]
      rfl
    · exact Load.logs_throw _
  · next hinline =>
    have hidentifier : r.identifier? = none := by
      unfold Reference.identifier?
      split
      · next identifier htable => exact absurd htable (hinline identifier)
      · rfl
    rw [hidentifier]
    split
    · exact (Load.logs_ofExcept _).imp fun _ log h => h.2
    · refine (Load.logs_ofExcept _).bind ?_
      exact fun _ _ _ => Load.logs_throw _

/-- The tables are fetched in the order of the references to them. -/
lemma logs_tables (references : List Reference) (tables : List Table) :
    (l.tablesOf references tables).Logs
      fun _ log => log = references.filterMap Reference.identifier? := by
  induction references generalizing tables with
  | nil => exact Load.logs_pure rfl
  | cons r references ih =>
    unfold tablesOf at ih ⊢
    rw [List.foldlM_cons]
    refine ((l.logs_tableOf r).bind (Q := fun _ log => log = r.identifier?.toList) ?_).bind ?_
    · rintro entries _ rfl
      exact Load.logs_pure (List.append_nil _)
    · rintro tables _ rfl
      refine (ih tables).imp fun tables log hlog => ?_
      rw [hlog]
      cases hidentifier : r.identifier? with
      | none => rw [List.filterMap_cons_none hidentifier]; rfl
      | some identifier => rw [List.filterMap_cons_some hidentifier]; rfl

/-- A document is loaded from the tree of its sheet in preorder, given what is loaded for the
references of all sheets. -/
lemma logs_load_of {P : List Reference → List Table → List Text → Prop}
    (htables : ∀ references, (l.tablesOf references []).Logs (P references)) (text source : Text) :
    (l.load text source).Logs fun doc fetched =>
      ∃ tree references log, l.IsEmbedTree text source tree ∧
        EmbedTree.gathered? EmbedTree.ownReferences? tree.preorder = some references ∧
        P references doc.tables log ∧
        (log = references.filterMap Reference.identifier? → l.Inlines tree doc fetched) := by
  rw [load_eq]
  refine (Load.logs_ofExcept _).bind ?_
  rintro sheet _ ⟨hsheet, rfl⟩
  refine (Load.logs_ofExcept _).bind ?_
  rintro nodes _ ⟨hnodes, rfl⟩
  refine (Load.logs_ofExcept _).bind ?_
  rintro references _ ⟨hreferences, rfl⟩
  have hlast : [source].getLast? = some source := rfl
  refine (l.logs_embedded _ sheet hlast).bind ?_
  rintro ⟨innerNodes, innerReferences⟩ log ⟨children, hunfolds, hgathers⟩
  refine (htables _).bind ?_
  intro tables log' hlog'
  have hall : EmbedTree.Gathers (EmbedTree.node source sheet children).preorder _ _ _ :=
    hgathers.cons hnodes hreferences
  refine Load.logs_pure ⟨.node source sheet children, _, log', ⟨rfl, hsheet, hunfolds⟩,
    hall.references, hlog', ?_⟩
  rintro rfl
  rw [List.append_nil, hgathers.log]
  exact ⟨hall.nodes, ⟨_, hall.references, rfl⟩, rfl, rfl, rfl, rfl⟩

/-- A document is loaded from the tree of its sheet in preorder. -/
lemma logs_load (text source : Text) :
    (l.load text source).Logs fun doc fetched =>
      ∃ tree, l.IsEmbedTree text source tree ∧ l.Inlines tree doc fetched := by
  refine (l.logs_load_of (fun references => l.logs_tables references []) text source).imp ?_
  rintro doc fetched ⟨tree, references, log, htree, -, hlog, hinlines⟩
  exact ⟨tree, htree, hinlines hlog⟩

/-- What a loader that succeeds gives is what its loading gives. -/
lemma logs_of_run {text source : Text} {doc : Document} {fetched : List Text}
    {P : Document → List Text → Prop} (h : l.run text source = (.ok doc, fetched))
    (hload : (l.load text source).Logs P) : P doc fetched := by
  rw [run_eq] at h
  split at h
  · cases h
  · obtain ⟨_, rfl, hdoc⟩ := hload [] doc fetched h
    exact hdoc

/-- A document that is loaded is the one of the tree of its sheet, of which there is only one: its
declarations are those of all occurrences in preorder, every occurrence below the root has been
fetched once in this order, after them every table that is named by an identifier, and title, unit
and size are those of the root. -/
theorem inlines_of_run {text source : Text} {doc : Document} {fetched : List Text}
    (h : l.run text source = (.ok doc, fetched)) :
    ∃ tree, l.IsEmbedTree text source tree ∧
      (∀ tree', l.IsEmbedTree text source tree' → tree' = tree) ∧ l.Inlines tree doc fetched := by
  obtain ⟨tree, htree, hinlines⟩ := logs_of_run h (l.logs_load text source)
  exact ⟨tree, htree, fun tree' htree' => htree'.unique htree, hinlines⟩

/-- A loader with two sheets that embed the same third one, and a table. -/
def diamond : Loader where
  formats := [.yaml]
  files? := some
    { entries := [("a", .text "title: A\nnodes: [name: A]\nembed: [c]"),
        ("b", .text "unit: t\nnodes: [name: B]\nembed: [c]"),
        ("c", .text "height: 7\nnodes: [name: C]"),
        ("t", .text "C: D")] }
  mode := .blocking
  settings := {}

/-- A sheet that embeds the two sheets, and refers to the table. -/
def diamondSheet : Text :=
  "title: Root\nwidth: 9\nnodes: [name: R]\nembed: [a, b]\ntranslations:\n  de: t"

/-- What stands in a document, in writing: the nodes, and title, unit and size. -/
def written (doc : Document) : List (Option Text) × List (Option Text) :=
  (doc.nodes.map Datum.literal?, [doc.title, doc.unit, doc.width, doc.height].map Datum.literal?)

/-- A sheet that is embedded twice is fetched twice, and the table after all sheets. Its node occurs twice,
each time after the node of the sheet that embeds it, and what else the embedded sheets say is left out. -/
theorem inlines_diamond : ∃ doc fetched tree,
    diamond.run diamondSheet "root" = (.ok doc, fetched) ∧
      fetched = ["a", "c", "b", "c", "t"] ∧
      written doc =
        ⟨[some "\x7b'name': 'R'\x7d", some "\x7b'name': 'A'\x7d", some "\x7b'name': 'C'\x7d",
            some "\x7b'name': 'B'\x7d", some "\x7b'name': 'C'\x7d"],
          [some "'Root'", some "None", some "9", some "600"]⟩ ∧
      diamond.IsEmbedTree diamondSheet "root" tree ∧ diamond.Inlines tree doc fetched := by
  have hread : (diamond.run diamondSheet "root").1.map written = .ok
        ⟨[some "\x7b'name': 'R'\x7d", some "\x7b'name': 'A'\x7d", some "\x7b'name': 'C'\x7d",
            some "\x7b'name': 'B'\x7d", some "\x7b'name': 'C'\x7d"],
          [some "'Root'", some "None", some "9", some "600"]⟩ ∧
      (diamond.run diamondSheet "root").2 = ["a", "c", "b", "c", "t"] := by
    decide +kernel
  obtain ⟨hwritten, hfetched⟩ := hread
  obtain ⟨doc, hdoc, hshown⟩ := Outcome.map_eq_ok_iff.mp hwritten
  have hrun : diamond.run diamondSheet "root" = (.ok doc, (diamond.run diamondSheet "root").2) := by
    rw [← hdoc, Prod.eta]
  obtain ⟨tree, htree, -, hinlines⟩ := inlines_of_run hrun
  exact ⟨doc, _, tree, hrun, hfetched, hshown, htree, hinlines⟩

end Loader

end StockFlow
