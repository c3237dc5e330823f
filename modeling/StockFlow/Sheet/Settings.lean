import StockFlow.Failure
/-!
# Settings

The choices that a sheet is processed with: sizes for sheets that declare none, how zeros and
suffixes are treated, and which fields are written. `effectiveFields` selects the fields of an
output row in their fixed order.
-/

namespace StockFlow

/-- The fields of a node row that are written unless others are chosen. -/
def nodeFields : List String := ["name", "description", "color", "value"]

/-- The fields of a node row that are written only if chosen. -/
def optionalNodeFields : List String := ["real_value"]

/-- The fields of a link row that are written unless others are chosen. -/
def linkFields : List String := ["source", "target", "color", "value"]

/-- The fields of a link row that are written only if chosen. -/
def optionalLinkFields : List String := ["description"]

/-- A choice of fields: only the included ones if such are given, and none of the excluded. A choice
may lack the excluded fields altogether, and then it cannot decide about any field. -/
structure FieldChoice where
  include? : Option (List String) := none
  exclude? : Option (List String) := some []

/-- The fields that a choice includes, in the order of those available. -/
def includedFields (choice : FieldChoice) (defaults optional : List String) : List String :=
  match choice.include? with
  | some included => (defaults ++ optional).filter included.contains
  | none => defaults

/-- The fields that a choice leaves, in the order of those available. -/
def effectiveFields (choice : FieldChoice) (defaults optional : List String) :
    Except Failure (List String) :=
  match choice.exclude?, includedFields choice defaults optional with
  | some excluded, chosen => .ok (chosen.filter fun name => !excluded.contains name)
  | none, [] => .ok []
  | none, _ :: _ => .error .wrongType

/-- The included fields keep the order of those available. -/
theorem includedFields_sublist (choice : FieldChoice) (defaults optional : List String) :
    (includedFields choice defaults optional).Sublist (defaults ++ optional) := by
  unfold includedFields
  split
  · exact List.filter_sublist
  · exact List.sublist_append_left defaults optional

/-- A field is written if the choice includes it and does not exclude it. -/
theorem mem_effectiveFields {choice : FieldChoice} {defaults optional fields : List String}
    (h : effectiveFields choice defaults optional = .ok fields) {name : String} :
    name ∈ fields ↔
      name ∈ includedFields choice defaults optional ∧ name ∉ choice.exclude?.getD [] := by
  unfold effectiveFields at h
  split at h
  · next excluded chosen hexcluded =>
    cases h
    simp [hexcluded]
  · next hexcluded hchosen =>
    cases h
    simp [hchosen]
  · cases h

/-- The fields written keep the order of those available. -/
theorem effectiveFields_sublist {choice : FieldChoice} {defaults optional fields : List String}
    (h : effectiveFields choice defaults optional = .ok fields) :
    fields.Sublist (defaults ++ optional) := by
  unfold effectiveFields at h
  split at h
  · cases h
    exact List.filter_sublist.trans (includedFields_sublist choice defaults optional)
  · cases h
    exact List.nil_sublist _
  · cases h

/-- The choices for written output. -/
structure OutputSettings where
  nodes : FieldChoice := {}
  links : FieldChoice := {}
  indent : Option Nat := some 2

/-- The fields of the node rows. -/
def OutputSettings.nodeFields (o : OutputSettings) : Except Failure (List String) :=
  effectiveFields o.nodes StockFlow.nodeFields optionalNodeFields

/-- The fields of the link rows. -/
def OutputSettings.linkFields (o : OutputSettings) : Except Failure (List String) :=
  effectiveFields o.links StockFlow.linkFields optionalLinkFields

/-- The choices for a sheet. -/
structure Settings where
  defaultWidth : Int := 800
  defaultHeight : Int := 600
  zeroIsUnset : Bool := false
  variantSeparator : Text := "-"
  languageSeparator : Text := "_"
  discoverPlugins : Bool := true
  output : OutputSettings := {}

end StockFlow
