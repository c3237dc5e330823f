import StockFlow.Proofs.Sheet.Linked
/-!
# Declarations in another order

Of declarations with different names none is merged into another one, so the collection of a sheet holds
them as they are (`Collection.foldlM_add_of_nodup`). Declared in another order they become the same
nodes in another order, but what a node has of the others depends on the order all the same: the links
that enter it stand in another one, the walk starts elsewhere, and the colours may differ. Neither
whether the collection has a graph (`Collection.colored_of_perm`) nor what a node has of its own
declaration (`Collection.map_core_perm`) depends on the order.
-/

namespace StockFlow

/-! ## Collections of different names -/

/-- A declaration under the name that it gives. -/
def declaredUnderName (d : Datum) : Except Failure Declared := do
  return { name := ← declaredName d, declaration := d }

namespace Collection

variable {c c' : Collection} {ds ds' : List Datum}

/-- Declarations whose names are different from each other and from those held are held as they are,
behind the others. -/
lemma foldlM_add_of_nodup
    (h : (c.declarations.map (fun d => (.ok d.name : Except Failure Text)) ++
      ds.map declaredName).Nodup) :
    ds.foldlM Collection.add c =
      (fun declared => { c with declarations := c.declarations ++ declared }) <$>
        ds.mapM declaredUnderName := by
  induction ds generalizing c with
  | nil =>
    change Except.ok c = Except.ok { c with declarations := c.declarations ++ [] }
    rw [List.append_nil]
  | cons d ds ih =>
    rw [List.foldlM_cons, List.mapM_cons]
    cases hname : declaredName d with
    | error failure =>
      have hadd : c.add d = .error failure := by
        unfold add
        rw [hname]
        rfl
      have hnamed : declaredUnderName d = .error failure := by
        unfold declaredUnderName
        rw [hname]
        rfl
      rw [hadd, hnamed]
      rfl
    | ok name =>
      have hfind : c.find? name = none := by
        refine List.find?_eq_none.mpr fun d' hd' heq => ?_
        have hmem : declaredName d ∈
            c.declarations.map fun d => (.ok d.name : Except Failure Text) := by
          rw [hname]
          exact List.mem_map.mpr ⟨d', hd', by rw [eq_of_beq heq]⟩
        exact (List.disjoint_of_nodup_append h) hmem List.mem_cons_self
      have hnamed : declaredUnderName d = .ok ⟨name, d⟩ := by
        unfold declaredUnderName
        rw [hname]
        rfl
      have hrest : ((c.declarations ++ [Declared.mk name d]).map
          (fun d => (.ok d.name : Except Failure Text)) ++ ds.map declaredName).Nodup := by
        rw [List.map_append, List.append_assoc, List.map_singleton, ← hname]
        exact h
      rw [add_of_find?_eq_none hname hfind, hnamed]
      change ds.foldlM Collection.add { c with declarations := c.declarations ++ [⟨name, d⟩] } = _
      rw [ih hrest]
      cases ds.mapM declaredUnderName with
      | error failure => rfl
      | ok declared =>
        change Except.ok { c with declarations := c.declarations ++ [_] ++ declared } = _
        rw [List.append_assoc]
        rfl

/-- The collection of declarations with different names holds them as they are. -/
lemma foldlM_add_eq_ok_iff (h : (ds.map declaredName).Nodup) :
    ds.foldlM Collection.add {} = .ok c ↔
      ∃ declared, ds.mapM declaredUnderName = .ok declared ∧ c = { declarations := declared } := by
  have hadd := foldlM_add_of_nodup (c := {}) h
  rw [hadd, Outcome.map_eq_ok_iff]
  exact exists_congr fun declared => and_congr_right fun _ => eq_comm

/-- Declarations with different names can be collected in any order. -/
lemma exists_foldlM_add_of_perm (hperm : ds.Perm ds') (h : (ds.map declaredName).Nodup)
    (hc : ds.foldlM Collection.add {} = .ok c) : ∃ c', ds'.foldlM Collection.add {} = .ok c' ∧
      c.declarations.Perm c'.declarations := by
  obtain ⟨declared, hdeclared, rfl⟩ := (foldlM_add_eq_ok_iff h).mp hc
  obtain ⟨declared', hdeclared', hsame⟩ := Outcome.exists_mapM_of_perm hperm hdeclared
  have h' : (ds'.map declaredName).Nodup := (hperm.map declaredName).nodup_iff.mp h
  exact ⟨_, (foldlM_add_eq_ok_iff h').mpr ⟨declared', hdeclared', rfl⟩, hsame⟩

/-- What a collection of declarations with different names holds is one of them under its name. -/
lemma eq_ok_of_mem_declarations (h : (ds.map declaredName).Nodup)
    (hc : ds.foldlM Collection.add {} = .ok c) {d : Declared} (hd : d ∈ c.declarations) :
    d.declaration ∈ ds ∧ declaredName d.declaration = .ok d.name := by
  obtain ⟨declared, hdeclared, rfl⟩ := (foldlM_add_eq_ok_iff h).mp hc
  obtain ⟨d', hd', hnamed⟩ := Outcome.exists_of_mem_of_mapM_eq_ok hdeclared hd
  obtain ⟨name, hname, hd⟩ := Outcome.bind_eq_ok_iff.mp hnamed
  cases hd
  exact ⟨hd', hname⟩

/-! ## Whether there is a graph -/

/-- A collection whose outline is acceptable and encodable has a coloured graph in any order of its
declarations, or it has a cycle in any order. -/
theorem colored_of_perm (hperm : c.declarations.Perm c'.declarations)
    (hnodup : (c.declarations.map Declared.name).Nodup)
    (hacceptable : ∀ entry ∈ c.outline, entry.2.IsAcceptable) (hencodable : c.outline.IsEncodable)
    (zeroIsUnset : Bool) :
    (∃ path path', c.colored zeroIsUnset = .error (.cycle path) ∧
      c'.colored zeroIsUnset = .error (.cycle path')) ∨
    ∃ g g', c.colored zeroIsUnset = .ok g ∧ c'.colored zeroIsUnset = .ok g' := by
  have houtline : c.outline.Perm c'.outline := hperm.map _
  have hnames : (c.outline.map Prod.fst).Nodup := by
    unfold outline
    rw [List.map_map]
    exact hnodup
  have hleads : c'.outline.Leads = c.outline.Leads := by
    funext a b
    refine propext (exists_congr fun entry => and_congr_left fun _ => ?_)
    exact houtline.symm.mem_iff
  have hfirst := colored_of_isAcceptable hacceptable hnames hencodable zeroIsUnset
  have hsecond := colored_of_isAcceptable
    (fun entry hentry => hacceptable entry (houtline.mem_iff.mpr hentry))
    ((houtline.map Prod.fst).nodup_iff.mp hnames)
    (fun entry hentry => hencodable entry (houtline.mem_iff.mpr hentry)) zeroIsUnset
  rw [hleads] at hsecond
  by_cases hcycle : HasCycle c.outline.Leads
  · obtain ⟨path, hpath⟩ := hfirst.2 hcycle
    obtain ⟨path', hpath'⟩ := hsecond.2 hcycle
    exact Or.inl ⟨path, path', hpath, hpath'⟩
  · obtain ⟨g, hg⟩ := hfirst.1 hcycle
    obtain ⟨g', hg'⟩ := hsecond.1 hcycle
    exact Or.inr ⟨g, g', hg, hg'⟩

end Collection

/-! ## What nodes have of their own declarations -/

/-- The name of a node, its declared value and the links that leave it, which it has of its own
declaration. -/
def Node.core (n : Node) : Text × Datum × List Link := (n.name, n.value, n.outgoing)

/-- Nodes have the same of their own declarations if every part is the same. -/
lemma Node.core_eq_iff {n : Node} {name : Text} {value : Datum} {outgoing : List Link} :
    n.core = (name, value, outgoing) ↔ n.name = name ∧ n.value = value ∧ n.outgoing = outgoing := by
  unfold core
  rw [Prod.mk.injEq, Prod.mk.injEq]

/-- Attaching links adds the targets that are not declared, and leaves the rest. -/
lemma map_core_linkedNodes (declared : List Node) :
    (linkedNodes declared).map Node.core =
      declared.map Node.core ++ (undeclaredTargets declared).map fun name => (name, .null, []) := by
  unfold linkedNodes
  rw [attachIncoming_eq, List.map_map]
  change (declared ++ (undeclaredTargets declared).map bareNode).map Node.core = _
  rw [List.map_append, List.map_map]
  rfl

/-- In another order nodes have the same targets that are not declared. -/
lemma undeclaredTargets_perm {declared declared' : List Node} (h : declared.Perm declared') :
    (undeclaredTargets declared).Perm (undeclaredTargets declared') := by
  have hnodup : ∀ nodes, (undeclaredTargets nodes).Nodup := fun _ => nodup_eraseDups _
  refine (List.perm_ext_iff_of_nodup (hnodup _) (hnodup _)).mpr fun name => ?_
  have hnames : name ∈ declared.map Node.name ↔ name ∈ declared'.map Node.name :=
    (h.map Node.name).mem_iff
  simp only [undeclaredTargets, List.mem_eraseDups, List.mem_filter, List.contains_eq_mem, hnames,
    (h.flatMap_right _).mem_iff]

namespace Collection

variable {c c' : Collection} {zeroIsUnset : Bool} {g g' : Graph}

/-- A coloured graph has the nodes of its declarations and the targets that are not declared. -/
lemma exists_declaredNodes_of_colored (hc : (c.declarations.map Declared.name).Nodup)
    (h : c.colored zeroIsUnset = .ok g) : ∃ declared, c.declaredNodes = .ok declared ∧
      ((linkedNodes declared).map Node.core).Perm (g.nodes.map Node.core) := by
  obtain ⟨plain, hplain, hcolored⟩ := colored_eq_ok_iff.mp h
  obtain ⟨declared, order, hdeclared, horder, rfl⟩ := toGraph_eq_ok_iff.mp hplain
  have hperm := perm_orderedGraph
    (nodup_map_name_linkedNodes ((map_name_declaredNodes hdeclared).symm ▸ hc))
    (nodup_walkOrder horder) (walked_of_walkOrder horder).starts_subset c.suffix
    (some ⟨zeroIsUnset⟩)
  have hkept := Graph.colorNodes_keeps (P := fun g => g.nodes.map Node.core =
    (orderedGraph (linkedNodes declared) order c.suffix (some ⟨zeroIsUnset⟩)).nodes.map Node.core)
    ?_ category10 rfl
  · rw [hcolored] at hkept
    refine ⟨declared, hdeclared, ?_⟩
    rw [hkept]
    exact hperm.map Node.core
  · intro g name color hg
    rw [← hg]
    unfold Graph.editNode
    rw [List.map_map]
    refine List.map_congr_left fun n _ => ?_
    dsimp only [Function.comp_apply]
    split <;> rfl

/-- In any order of the declarations, nodes have the same of their own declarations. -/
theorem map_core_perm (hperm : c.declarations.Perm c'.declarations)
    (hnodup : (c.declarations.map Declared.name).Nodup) (h : c.colored zeroIsUnset = .ok g)
    (h' : c'.colored zeroIsUnset = .ok g') :
    (g.nodes.map Node.core).Perm (g'.nodes.map Node.core) := by
  obtain ⟨declared, hdeclared, hcore⟩ := exists_declaredNodes_of_colored hnodup h
  obtain ⟨declared', hdeclared', hcore'⟩ := exists_declaredNodes_of_colored
    ((hperm.map Declared.name).nodup_iff.mp hnodup) h'
  rw [declaredNodes_eq_ok_iff, ← Outcome.mapM_eq_ok_iff] at hdeclared hdeclared'
  obtain ⟨nodes, hnodes, hsame⟩ := Outcome.exists_mapM_of_perm hperm hdeclared
  obtain rfl : nodes = declared' := Except.ok.inj (hnodes.symm.trans hdeclared')
  have hlinked : ((linkedNodes declared).map Node.core).Perm
      ((linkedNodes nodes).map Node.core) := by
    rw [map_core_linkedNodes, map_core_linkedNodes]
    exact (hsame.map Node.core).append ((undeclaredTargets_perm hsame).map _)
  exact hcore.symm.trans (hlinked.trans hcore')

end Collection

/-! ## Sheets in another order -/

/-- The entries of the links that a declaration lists. -/
def Datum.linkFields (d : Datum) : List Entries :=
  ((declaredLinks (d.fields?.getD [])).toOption.getD []).filterMap Datum.fields?

/-- The entries of a link that is listed are among those of the declaration. -/
lemma Datum.mem_linkFields {d link : Datum} {links : List Datum} {fields : Entries}
    (hlinks : declaredLinks (d.fields?.getD []) = .ok links) (hlink : link ∈ links)
    (hfields : link.fields? = some fields) : fields ∈ d.linkFields := by
  unfold linkFields
  rw [hlinks]
  exact List.mem_filterMap.mpr ⟨link, hlink, hfields⟩

instance (d : Datum) : Decidable d.HasUnicodeText :=
  decidable_of_iff (d.display?.any fun t => t.utf8?.isSome)
    (by unfold Datum.HasUnicodeText; cases d.display? <;> simp)

/-- A declaration that lacks the key that no attribute can have, and whose name and targets have texts
with encodings. -/
structure Datum.IsAdmissible (d : Datum) : Prop where
  lacksForbidden : Entries.find? (d.fields?.getD []) (.text forbiddenAttribute) = none
  name : (Entries.get (d.fields?.getD []) "name").HasUnicodeText
  targets : ∀ fields ∈ d.linkFields, (Entries.get fields "to").HasUnicodeText

instance (d : Datum) : Decidable d.IsAdmissible :=
  decidable_of_iff ((Entries.find? (d.fields?.getD []) (.text forbiddenAttribute)).isNone ∧
      (Entries.get (d.fields?.getD []) "name").HasUnicodeText ∧
      ∀ fields ∈ d.linkFields, (Entries.get fields "to").HasUnicodeText)
    ⟨fun h => ⟨Option.isNone_iff_eq_none.mp h.1, h.2.1, h.2.2⟩,
      fun h => ⟨Option.isNone_iff_eq_none.mpr h.lacksForbidden, h.name, h.targets⟩⟩

/-- Declarations with different names and without alternatives, each of which is a mapping that has a
name and lists mappings with targets, or none. -/
structure AreDistinct (ds : List Datum) : Prop where
  named : ∀ d ∈ ds, d.IsNamed
  linked : ∀ d ∈ ds, d.IsLinked
  nodup : (ds.map declaredName).Nodup
  single : ∀ d ∈ ds, Builder.alternativesOf d = none

section Sheets

variable {s : Settings} {ds ds' : List Datum} {c : Collection}

/-- Different declarations stay so in another order. -/
lemma AreDistinct.perm (h : AreDistinct ds) (hperm : ds.Perm ds') : AreDistinct ds' where
  named d hd := h.named d (hperm.mem_iff.mpr hd)
  linked d hd := h.linked d (hperm.mem_iff.mpr hd)
  nodup := (hperm.map declaredName).nodup_iff.mp h.nodup
  single d hd := h.single d (hperm.mem_iff.mpr hd)

/-- A sheet without alternatives has the coloured graph of its declarations, or fails as they do. -/
lemma buildGraphs_eq_map_colored (hsingle : ∀ d ∈ ds, Builder.alternativesOf d = none)
    (hc : ds.foldlM Collection.add {} = .ok c) :
    buildGraphs s ds = ([·]) <$> c.colored s.zeroIsUnset := by
  have hself := Builder.variant_eq_self hsingle
  have htotal : Builder.variantTotal ds = 1 := by
    rw [← hself 0, Builder.variantTotal_variant]
  have hgraph : variantGraph s ds 0 = c.colored s.zeroIsUnset := by
    have hsuffix : Builder.variantSuffix s.variantSeparator ds 0 = [] := by
      rw [← hself 0, Builder.variantSuffix_variant]
    unfold variantGraph
    rw [hsuffix, hself, withSuffix_singleGraph]
    unfold singleGraph
    rw [hc]
    rfl
  rw [buildGraphs_eq_mapM fun number _ => ⟨c, by rw [hself, hc]⟩, htotal, List.range_one,
    List.mapM_cons, hgraph, List.mapM_nil]
  cases c.colored s.zeroIsUnset <;> rfl

/-- Admissible declarations with different names can be collected, and every one of them can become a
node. -/
lemma exists_collection_of_areDistinct (hds : AreDistinct ds)
    (hadmissible : ∀ d ∈ ds, d.IsAdmissible) :
    ∃ c, ds.foldlM Collection.add {} = .ok c ∧ (∀ entry ∈ c.outline, entry.2.IsAcceptable) ∧
      c.outline.IsEncodable := by
  have hnames : ∀ d ∈ ds, ∃ name, declaredName d = .ok name := fun d hd =>
    (isNamed_iff (hadmissible d hd).name).mp (hds.named d hd)
  obtain ⟨declared, hdeclared⟩ : ∃ declared, ds.mapM declaredUnderName = .ok declared := by
    refine Outcome.exists_mapM_eq_ok_iff.mpr fun d hd => ?_
    obtain ⟨name, hname⟩ := hnames d hd
    exact ⟨_, Outcome.bind_eq_ok_iff.mpr ⟨name, hname, rfl⟩⟩
  have hc := (Collection.foldlM_add_eq_ok_iff hds.nodup).mpr ⟨declared, hdeclared, rfl⟩
  refine ⟨_, hc, ?_, ?_⟩
  all_goals
    rintro entry hentry
    obtain ⟨d, hd, rfl⟩ := List.mem_map.mp hentry
    obtain ⟨hmem, hname⟩ := Collection.eq_ok_of_mem_declarations hds.nodup hc hd
    obtain ⟨hlacks, htext, htargets⟩ := hadmissible _ hmem
  · refine ⟨?_, (isLinked_iff fun links hlinks link hlink fields hfields =>
      htargets fields (Datum.mem_linkFields hlinks hlink hfields)).mp (hds.linked _ hmem)⟩
    change (Entries.find? (d.declaration.fields?.getD []) _).isSome = false
    rw [hlacks]
    rfl
  · constructor
    · obtain ⟨fields, hfields, hname⟩ := declaredName_eq_ok_iff.mp hname
      rw [hfields] at htext
      exact htext.isSome_utf8? hname
    · intro target htarget
      obtain ⟨links, hlinks, link, hlink, fields, hfields, hname⟩ :=
        mem_targets_declaredOutline_iff.mp htarget
      exact (htargets fields (Datum.mem_linkFields hlinks hlink hfields)).isSome_utf8? hname

/-- Admissible declarations with different names can be built in any order, or have a cycle in any
order. -/
lemma buildGraphs_of_perm (hperm : ds.Perm ds') (hds : AreDistinct ds)
    (hadmissible : ∀ d ∈ ds, d.IsAdmissible) :
    (∃ path path', buildGraphs s ds = .error (.cycle path) ∧
      buildGraphs s ds' = .error (.cycle path')) ∨
    ∃ gs gs', buildGraphs s ds = .ok gs ∧ buildGraphs s ds' = .ok gs' := by
  obtain ⟨c, hc, hacceptable, hencodable⟩ := exists_collection_of_areDistinct hds hadmissible
  obtain ⟨c', hc', hsame⟩ := Collection.exists_foldlM_add_of_perm hperm hds.nodup hc
  rw [buildGraphs_eq_map_colored hds.single hc,
    buildGraphs_eq_map_colored (hds.perm hperm).single hc']
  rcases Collection.colored_of_perm hsame (Collection.nodup_names_foldlM hc List.nodup_nil)
    hacceptable hencodable s.zeroIsUnset with ⟨path, path', hpath, hpath'⟩ | ⟨g, g', hg, hg'⟩
  · rw [hpath, hpath']
    exact Or.inl ⟨path, path', rfl, rfl⟩
  · rw [hg, hg']
    exact Or.inr ⟨[g], [g'], rfl, rfl⟩

/-- A sheet with different names that can be built has the coloured graph of its declarations. -/
lemma exists_colored_of_areDistinct (hds : AreDistinct ds) {gs : List Graph}
    (hgs : buildGraphs s ds = .ok gs) : ∃ c g, ds.foldlM Collection.add {} = .ok c ∧
      c.colored s.zeroIsUnset = .ok g ∧ gs = [g] := by
  rw [← Builder.variant_eq_self hds.single 0, buildGraphs_variant_eq_ok_iff,
    Builder.variant_eq_self hds.single] at hgs
  obtain ⟨g, hg, rfl⟩ := hgs
  obtain ⟨c, hc, hcolored⟩ := Outcome.bind_eq_ok_iff.mp hg
  exact ⟨c, g, hc, hcolored, rfl⟩

/-- Sheets with different names that are built in two orders have one graph each, whose nodes have the
same of their own declarations. -/
lemma exists_graphs_of_perm (hperm : ds.Perm ds') (hds : AreDistinct ds) {gs gs' : List Graph}
    (hgs : buildGraphs s ds = .ok gs) (hgs' : buildGraphs s ds' = .ok gs') :
    ∃ g g', gs = [g] ∧ gs' = [g'] ∧ (g.nodes.map Node.core).Perm (g'.nodes.map Node.core) := by
  obtain ⟨c, g, hc, hg, rfl⟩ := exists_colored_of_areDistinct hds hgs
  obtain ⟨c', g', hc', hg', rfl⟩ := exists_colored_of_areDistinct (hds.perm hperm) hgs'
  obtain ⟨c'', hc'', hsame⟩ := Collection.exists_foldlM_add_of_perm hperm hds.nodup hc
  obtain rfl : c'' = c' := Except.ok.inj (hc''.symm.trans hc')
  exact ⟨g, g', rfl, rfl,
    Collection.map_core_perm hsame (Collection.nodup_names_foldlM hc List.nodup_nil) hg hg'⟩

/-- What holds of no value and no links, and of what every declaration says, holds of every node. -/
lemma forall_core_of_buildGraphs (hds : AreDistinct ds) {gs : List Graph}
    (hgs : buildGraphs s ds = .ok gs) {P : Datum → List Link → Prop} (hbare : P .null [])
    (hdeclared : ∀ d ∈ ds, ∀ name links outgoing,
      declaredLinks (d.fields?.getD []) = .ok links → links.mapM (declaredLink name) = .ok outgoing →
        P (Entries.get (d.fields?.getD []) "value") outgoing) :
    ∀ g ∈ gs, ∀ n ∈ g.nodes, P n.value n.outgoing := by
  obtain ⟨c, g, hc, hg, rfl⟩ := exists_colored_of_areDistinct hds hgs
  obtain ⟨declared, hnodes, hcore⟩ := Collection.exists_declaredNodes_of_colored
    (Collection.nodup_names_foldlM hc List.nodup_nil) hg
  rw [Collection.declaredNodes_eq_ok_iff, ← Outcome.mapM_eq_ok_iff] at hnodes
  intro g' hg' n hn
  rw [List.mem_singleton.mp hg'] at hn
  have hmem := hcore.mem_iff.mpr (List.mem_map_of_mem hn)
  rw [map_core_linkedNodes, List.mem_append] at hmem
  rcases hmem with hmem | hmem
  · obtain ⟨m, hm, heq⟩ := List.mem_map.mp hmem
    obtain ⟨d, hd, hnode⟩ := Outcome.exists_of_mem_of_mapM_eq_ok hnodes hm
    obtain ⟨-, links, outgoing, hlinks, houtgoing, rfl⟩ := declaredNode_eq_ok_iff.mp hnode
    obtain ⟨-, hvalue, hsame⟩ := Node.core_eq_iff.mp heq.symm
    rw [hvalue, hsame]
    exact hdeclared _ (Collection.eq_ok_of_mem_declarations hds.nodup hc hd).1 _ links _ hlinks
      houtgoing
  · obtain ⟨name, -, heq⟩ := List.mem_map.mp hmem
    obtain ⟨-, hvalue, hsame⟩ := Node.core_eq_iff.mp heq.symm
    rw [hvalue, hsame]
    exact hbare

end Sheets

end StockFlow
