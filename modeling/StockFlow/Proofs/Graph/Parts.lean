import StockFlow.Proofs.Graph.ColorRules
import StockFlow.Proofs.Graph.Walk
import StockFlow.Proofs.Outcome
/-!
# Parts of graphs

Linked nodes that stand among the nodes of a larger linked graph are a part of it (`Graph.IsPartOf`).
Links are known at both ends, so no link of the larger graph leaves or enters a part from outside:
what is found from a node of the part by its links is found in the part.
Hence the part has the same rules for colours on its own (`Graph.IsPartOf.hasColor`).

The order of nodes is another matter, since a walk carries along all names that it has seen. A walk in
a set of names that no link leads out of does not notice the names outside of it (`walkFrom_append`), and it
sees everything that it leads to (`explores_foldlM`). So names that are only known as targets are passed over
when their turn comes, and two such sets of names are walked one after the other (`walkOrder_append`).
-/

namespace StockFlow

/-! ## Walks in closed sets of names -/

section Walks

variable {next next' : Text → List Text} {names before path seen result : List Text} {name : Text}
variable {depth depth' : Nat}

/-- No link leads out of a list of names. -/
def IsClosedUnder (next : Text → List Text) (names : List Text) : Prop :=
  ∀ a ∈ names, next a ⊆ names

/-- What a walk from some names makes of the names seen before: it loses none of them, it sees where it
starts and whatever the names that it adds lead to, and it stays in a closed list. -/
structure Explores (next : Text → List Text) (seen starts result : List Text) : Prop where
  seen_subset : seen ⊆ result
  starts_subset : starts ⊆ result
  next_subset : ∀ a ∈ result, a ∈ seen ∨ next a ⊆ result
  subset_of_closed : ∀ names, IsClosedUnder next names → seen ⊆ names → starts ⊆ names →
    result ⊆ names

/-- Walks from several names in turn explore all of them. -/
lemma Explores.foldlM {walk : List Text → Text → Except Failure (List Text)}
    (hwalk : ∀ {seen name result}, walk seen name = .ok result → Explores next seen [name] result)
    {starts : List Text} (h : starts.foldlM walk seen = .ok result) :
    Explores next seen starts result := by
  induction starts generalizing seen with
  | nil =>
    cases h
    exact ⟨List.Subset.refl _, List.nil_subset _, fun _ ha => Or.inl ha, fun _ _ hseen _ => hseen⟩
  | cons name starts ih =>
    rw [List.foldlM_cons] at h
    obtain ⟨middle, hmiddle, h⟩ := Outcome.bind_eq_ok_iff.mp h
    have hhead := hwalk hmiddle
    have htail := ih h
    refine ⟨List.Subset.trans hhead.seen_subset htail.seen_subset, ?_, ?_, ?_⟩
    · exact List.cons_subset.mpr
        ⟨htail.seen_subset (hhead.starts_subset List.mem_cons_self), htail.starts_subset⟩
    · intro a ha
      rcases htail.next_subset a ha with ha | ha
      · exact (hhead.next_subset a ha).imp_right fun hnext => List.Subset.trans hnext htail.seen_subset
      · exact Or.inr ha
    · intro names hclosed hseen hstarts
      obtain ⟨hname, hstarts⟩ := List.cons_subset.mp hstarts
      exact htail.subset_of_closed names hclosed
        (hhead.subset_of_closed names hclosed hseen (by simpa using hname)) hstarts

/-- A walk from one name explores it. -/
lemma explores_walkFrom (h : walkFrom next depth path seen name = .ok result) :
    Explores next seen [name] result := by
  induction depth generalizing path seen name result with
  | zero => cases h
  | succ depth ih =>
    unfold walkFrom at h
    split at h
    · cases h
    split at h
    · next hmem =>
      cases h
      have hmem : name ∈ seen := by simpa using hmem
      exact ⟨List.Subset.refl _, by simpa using hmem, fun _ ha => Or.inl ha,
        fun _ _ hseen _ => hseen⟩
    · have hbehind : Explores next (seen ++ [name]) (next name) result := Explores.foldlM ih h
      have hname : name ∈ result := hbehind.seen_subset (by simp)
      refine ⟨List.Subset.trans (List.subset_append_left _ _) hbehind.seen_subset,
        by simpa using hname, ?_, ?_⟩
      · intro a ha
        rcases hbehind.next_subset a ha with ha | ha
        · rcases List.mem_append.mp ha with ha | ha
          · exact Or.inl ha
          · rw [List.mem_singleton.mp ha]
            exact Or.inr hbehind.starts_subset
        · exact Or.inr ha
      · intro names hclosed hseen hname
        exact hbehind.subset_of_closed names hclosed (List.append_subset.mpr ⟨hseen, hname⟩)
          (hclosed name (by simpa using hname))

/-- Walks one after the other do not notice what has been seen before if none of them does. -/
lemma foldlM_walk_append {walk walk' : List Text → Text → Except Failure (List Text)}
    {starts : List Text} (hwalk : ∀ name ∈ starts, ∀ seen,
      walk' (before ++ seen) name = (before ++ ·) <$> walk seen name) :
    starts.foldlM walk' (before ++ seen) = (before ++ ·) <$> starts.foldlM walk seen := by
  induction starts generalizing seen with
  | nil => rfl
  | cons name starts ih =>
    rw [List.foldlM_cons, List.foldlM_cons, hwalk name List.mem_cons_self]
    cases walk seen name with
    | error failure => rfl
    | ok middle => exact ih fun other hother => hwalk other (List.mem_cons_of_mem name hother)

/-- A walk in a closed list of names only asks where these lead, and does not notice names outside of
the list that have been seen before. -/
lemma walkFrom_append (hclosed : IsClosedUnder next names) (hnext : ∀ a ∈ names, next' a = next a)
    (hbefore : before.Disjoint names) (hname : name ∈ names) :
    walkFrom next' depth path (before ++ seen) name =
      (before ++ ·) <$> walkFrom next depth path seen name := by
  induction depth generalizing path seen name with
  | zero => rfl
  | succ depth ih =>
    have hseen : (before ++ seen).contains name = seen.contains name := by
      have hnot : name ∉ before := fun hmem => hbefore hmem hname
      simp [hnot]
    unfold walkFrom
    rw [hseen, List.append_assoc, hnext name hname]
    split
    · rfl
    split
    · rfl
    · exact foldlM_walk_append fun target htarget seen => ih (hclosed name hname htarget)

/-- Walks that succeed do so with more depth. -/
lemma foldlM_eq_ok_of_imp {walk walk' : List Text → Text → Except Failure (List Text)}
    (hwalk : ∀ {seen name result}, walk seen name = .ok result → walk' seen name = .ok result)
    {starts : List Text} (h : starts.foldlM walk seen = .ok result) :
    starts.foldlM walk' seen = .ok result := by
  induction starts generalizing seen with
  | nil => exact h
  | cons name starts ih =>
    rw [List.foldlM_cons] at h ⊢
    obtain ⟨middle, hmiddle, h⟩ := Outcome.bind_eq_ok_iff.mp h
    exact Outcome.bind_eq_ok_iff.mpr ⟨middle, hwalk hmiddle, ih h⟩

/-- A walk that succeeds does so with more depth. -/
lemma walkFrom_mono (hdepth : depth ≤ depth') (h : walkFrom next depth path seen name = .ok result) :
    walkFrom next depth' path seen name = .ok result := by
  induction depth generalizing depth' path seen name result with
  | zero => cases h
  | succ depth ih =>
    obtain ⟨depth', rfl⟩ := Nat.exists_eq_add_of_le' hdepth
    rw [← Nat.add_assoc]
    unfold walkFrom at h ⊢
    split at h
    · cases h
    next hpath =>
      rw [if_neg hpath]
      split at h
      · next hmem => rw [if_pos hmem, h]
      · next hmem =>
        rw [if_neg hmem]
        exact foldlM_eq_ok_of_imp (ih (by omega)) h

/-- A walk from names that have been seen sees nothing new. -/
lemma foldlM_walkFrom_of_subset {starts : List Text} (h : starts ⊆ seen) :
    starts.foldlM (walkFrom next (depth + 1) []) seen = .ok seen := by
  induction starts with
  | nil => rfl
  | cons name starts ih =>
    obtain ⟨hname, hstarts⟩ := List.cons_subset.mp h
    have hwalk : walkFrom next (depth + 1) [] seen name = .ok seen := by
      unfold walkFrom
      simp [hname]
    rw [List.foldlM_cons, hwalk]
    exact ih hstarts

variable {declared bare order : List Text}

/-- The targets of some names are seen before their turn comes, and what has been seen outside of a closed
list stays in front of the names of the list. -/
lemma foldlM_walkFrom_of_walkOrder (hclosed : IsClosedUnder next (declared ++ bare))
    (hbare : ∀ b ∈ bare, ∃ a ∈ declared, b ∈ next a)
    (horder : walkOrder (declared ++ bare) next = .ok order)
    (hnext : ∀ a ∈ declared ++ bare, next' a = next a) (hbefore : before.Disjoint (declared ++ bare))
    (hdepth : (declared ++ bare).length + 1 ≤ depth) :
    declared.foldlM (walkFrom next' depth []) before = .ok (before ++ order) := by
  unfold walkOrder at horder
  rw [List.foldlM_append] at horder
  obtain ⟨seen, hseen, hrest⟩ := Outcome.bind_eq_ok_iff.mp horder
  have hexplored : Explores next [] declared seen := Explores.foldlM explores_walkFrom hseen
  have hsubset : bare ⊆ seen := by
    intro b hb
    obtain ⟨a, ha, hab⟩ := hbare b hb
    rcases hexplored.next_subset a (hexplored.starts_subset ha) with hnil | hleads
    · exact absurd hnil List.not_mem_nil
    · exact hleads hab
  obtain rfl : seen = order := by
    rw [foldlM_walkFrom_of_subset hsubset] at hrest
    exact Except.ok.inj hrest
  have hdeep : declared.foldlM (walkFrom next depth []) [] = .ok seen :=
    foldlM_eq_ok_of_imp (walkFrom_mono hdepth) hseen
  have hbehind : declared.foldlM (walkFrom next' depth []) (before ++ []) =
      (before ++ ·) <$> declared.foldlM (walkFrom next depth []) [] :=
    foldlM_walk_append fun name hname seen =>
      walkFrom_append hclosed hnext hbefore (List.mem_append_left bare hname)
  rw [List.append_nil, hdeep] at hbehind
  exact hbehind

/-- Names in a closed list are ordered within it. -/
lemma subset_of_walkOrder (hclosed : IsClosedUnder next names)
    (horder : walkOrder names next = .ok order) : order ⊆ names :=
  (Explores.foldlM explores_walkFrom horder).subset_of_closed names hclosed (List.nil_subset _)
    (List.Subset.refl _)

variable {next₁ next₂ : Text → List Text} {declared₁ declared₂ bare₁ bare₂ order₁ order₂ : List Text}

/-- **Orders apart.**  Two closed lists of names, each of them with its targets behind, are ordered
one after the other if the targets of both are put behind all the rest. -/
theorem walkOrder_append (hclosed₁ : IsClosedUnder next₁ (declared₁ ++ bare₁))
    (hclosed₂ : IsClosedUnder next₂ (declared₂ ++ bare₂))
    (hbare₁ : ∀ b ∈ bare₁, ∃ a ∈ declared₁, b ∈ next₁ a)
    (hbare₂ : ∀ b ∈ bare₂, ∃ a ∈ declared₂, b ∈ next₂ a)
    (hdisjoint : (declared₁ ++ bare₁).Disjoint (declared₂ ++ bare₂))
    (hnext₁ : ∀ a ∈ declared₁ ++ bare₁, next a = next₁ a)
    (hnext₂ : ∀ a ∈ declared₂ ++ bare₂, next a = next₂ a)
    (horder₁ : walkOrder (declared₁ ++ bare₁) next₁ = .ok order₁)
    (horder₂ : walkOrder (declared₂ ++ bare₂) next₂ = .ok order₂) :
    walkOrder (declared₁ ++ declared₂ ++ (bare₁ ++ bare₂)) next = .ok (order₁ ++ order₂) := by
  have hwithin₁ : order₁ ⊆ declared₁ ++ bare₁ := subset_of_walkOrder hclosed₁ horder₁
  obtain ⟨depth, hdepth⟩ : ∃ depth, depth = (declared₁ ++ declared₂ ++ (bare₁ ++ bare₂)).length + 1 :=
    ⟨_, rfl⟩
  have hfirst : declared₁.foldlM (walkFrom next depth []) [] = .ok order₁ :=
    foldlM_walkFrom_of_walkOrder hclosed₁ hbare₁ horder₁ hnext₁ (List.disjoint_nil_left _)
      (by simp [hdepth]; omega)
  have hsecond : declared₂.foldlM (walkFrom next depth []) order₁ = .ok (order₁ ++ order₂) :=
    foldlM_walkFrom_of_walkOrder hclosed₂ hbare₂ horder₂ hnext₂
      (List.disjoint_of_subset_left hwithin₁ hdisjoint) (by simp [hdepth]; omega)
  have hcovered₁ := (Explores.foldlM explores_walkFrom horder₁).starts_subset
  have hcovered₂ := (Explores.foldlM explores_walkFrom horder₂).starts_subset
  have hseen : bare₁ ++ bare₂ ⊆ order₁ ++ order₂ := by
    refine List.append_subset.mpr ⟨?_, ?_⟩
    · exact fun b hb => List.mem_append_left _ (hcovered₁ (List.mem_append_right _ hb))
    · exact fun b hb => List.mem_append_right _ (hcovered₂ (List.mem_append_right _ hb))
  unfold walkOrder
  rw [← hdepth, List.foldlM_append, List.foldlM_append, hfirst]
  refine Outcome.bind_eq_ok_iff.mpr ⟨order₁ ++ order₂, hsecond, ?_⟩
  rw [hdepth]
  exact foldlM_walkFrom_of_subset hseen

end Walks

/-! ## Parts of graphs -/

namespace Graph

/-- The nodes of a linked graph that are nodes of another linked graph with the same resolver. -/
structure IsPartOf (part whole : Graph) : Prop where
  linked_part : part.IsLinked
  linked_whole : whole.IsLinked
  nodes_subset : part.nodes ⊆ whole.nodes
  resolver_eq : part.resolver = whole.resolver

namespace IsPartOf

variable {part whole : Graph} {id : LinkId} {link : Link} {n : Node} {name : Text}

/-- A node of a part is found in the part. -/
lemma node?_eq (h : part.IsPartOf whole) (hname : name ∈ part.nodes.map Node.name) :
    whole.node? name = part.node? name := by
  obtain ⟨n, hn, rfl⟩ := List.mem_map.mp hname
  rw [(node?_eq_some_iff h.linked_part.nodup_names).mpr ⟨hn, rfl⟩]
  exact (node?_eq_some_iff h.linked_whole.nodup_names).mpr ⟨h.nodes_subset hn, rfl⟩

/-- A link that leaves a node of a part is found in the part. -/
lemma link?_eq (h : part.IsPartOf whole) (hsource : id.source ∈ part.nodes.map Node.name) :
    whole.link? id = part.link? id := by
  unfold link?
  rw [h.node?_eq hsource]

/-- A link that enters a node of a part leaves a node of the part. -/
lemma source_mem (h : part.IsPartOf whole) (hn : n ∈ part.nodes) (hid : id ∈ n.incoming) :
    id.source ∈ part.nodes.map Node.name := by
  obtain ⟨link, hlink, -⟩ := (h.linked_part.mem_incoming_iff n hn id).mp hid
  obtain ⟨source, hsource, hname, -⟩ := mem_links_iff.mp hlink
  exact hname ▸ List.mem_map_of_mem hsource

/-- The rule for the colour of a node of a part is the same in the part. -/
lemma colorRule_eq (h : part.IsPartOf whole) (hn : n ∈ part.nodes) :
    whole.colorRule n = part.colorRule n := by
  have hentering : whole.enteringColor? n = part.enteringColor? n := by
    unfold enteringColor?
    refine congrArg (List.find? Datum.isTruthy) (List.filterMap_congr fun id hid => ?_)
    rw [h.link?_eq (h.source_mem hn hid)]
  unfold colorRule
  rw [hentering]

/-- The rules give a node of a part the colour that they give it in the part. -/
theorem hasColor (h : part.IsPartOf whole) {palette : List Text} {color : Datum}
    (hcolor : part.HasColor palette name color) : whole.HasColor palette name color := by
  induction hcolor with
  | keep hn hrule => exact .keep (h.nodes_subset hn) ((h.colorRule_eq hn).trans hrule)
  | pick hn hrule hpick => exact .pick (h.nodes_subset hn) ((h.colorRule_eq hn).trans hrule) hpick
  | inherit hn hrule _ ih => exact .inherit (h.nodes_subset hn) ((h.colorRule_eq hn).trans hrule) ih

/-- A node of a part has the colour that it has in the part. -/
lemma nodeColor_eq (h : part.IsPartOf whole) (hname : name ∈ part.nodes.map Node.name) :
    whole.nodeColor name = part.nodeColor name := by
  unfold nodeColor
  rw [h.node?_eq hname]

/-- A link of a part has the colour that it has in the part. -/
lemma linkColor_eq (h : part.IsPartOf whole) (hlink : (id, link) ∈ part.links) :
    whole.linkColor id link = part.linkColor id link := by
  obtain ⟨source, hsource, hname, hget⟩ := mem_links_iff.mp hlink
  have htarget := h.linked_part.target_mem source hsource link (List.mem_of_getElem? hget)
  have hleft : id.source ∈ part.nodes.map Node.name := hname ▸ List.mem_map_of_mem hsource
  unfold linkColor
  rw [h.nodeColor_eq htarget, h.nodeColor_eq hleft]

end IsPartOf

/-- A linked graph with the nodes of two linked graphs has both for parts. -/
lemma isPartOf_of_nodes_eq_append {g g₁ g₂ : Graph} (hlinked : g.IsLinked) (hlinked₁ : g₁.IsLinked)
    (hlinked₂ : g₂.IsLinked) (hnodes : g.nodes = g₁.nodes ++ g₂.nodes)
    (hresolver₁ : g₁.resolver = g.resolver) (hresolver₂ : g₂.resolver = g.resolver) :
    g₁.IsPartOf g ∧ g₂.IsPartOf g := by
  refine ⟨⟨hlinked₁, hlinked, ?_, hresolver₁⟩, ⟨hlinked₂, hlinked, ?_, hresolver₂⟩⟩
  · rw [hnodes]
    exact List.subset_append_left _ _
  · rw [hnodes]
    exact List.subset_append_right _ _

end Graph

end StockFlow
