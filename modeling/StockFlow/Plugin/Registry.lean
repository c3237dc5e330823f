import StockFlow.Datum.Display
import StockFlow.Plugin.Basic
/-!
# The registry of plugins

A registry knows plugins by name, and how often each of them has been called since it was
registered. Registering a name again replaces its plugin. `Registry.choose` finds the plugin that a
declared value names.
-/

namespace StockFlow

/-- A registered plugin and the number of its calls. -/
structure Registered where
  name : Text
  plugin : Plugin
  calls : Nat

/-- The registered plugins. -/
structure Registry where
  plugins : List Registered := []

instance : Inhabited Registry := ⟨{}⟩

namespace Registry

/-- The plugin of a name. -/
def find? (r : Registry) (name : Text) : Option Registered :=
  r.plugins.find? fun p => p.name == name

/-- Whether a name is registered. -/
def contains (r : Registry) (name : Text) : Bool :=
  (r.find? name).isSome

/-- The number of registered names. -/
def size (r : Registry) : Nat := r.plugins.length

/-- The registered names in the order of their characters. -/
def names (r : Registry) : List Text :=
  (r.plugins.map Registered.name).mergeSort Text.precedes

/-- The names are those registered, in another order. -/
theorem names_perm (r : Registry) : r.names.Perm (r.plugins.map Registered.name) :=
  List.mergeSort_perm _ _

/-- Registers a plugin under a name, with no calls so far. -/
def insert (r : Registry) (name : Text) (plugin : Plugin) : Registry :=
  if r.contains name then
    { plugins := r.plugins.map fun p => if p.name == name then ⟨name, plugin, 0⟩ else p }
  else { plugins := r.plugins ++ [⟨name, plugin, 0⟩] }

/-- What is registered under a name is found there, with no calls so far. -/
theorem find?_insert_self (r : Registry) (name : Text) (plugin : Plugin) :
    (r.insert name plugin).find? name = some ⟨name, plugin, 0⟩ := by
  unfold insert
  split
  · next hname =>
    obtain ⟨p, hp⟩ := Option.isSome_iff_exists.mp hname
    have hfind : ((fun q : Registered => q.name == name) ∘ fun q : Registered =>
        if q.name == name then ⟨name, plugin, 0⟩ else q) = fun q => q.name == name := by
      funext q
      simp only [Function.comp_apply]
      split <;> simp_all
    unfold find? at hp ⊢
    have hpname : p.name = name := by simpa using List.find?_some hp
    rw [List.find?_map, hfind, hp]
    simp [hpname]
  · next hname =>
    have hnone : r.plugins.find? (fun q => q.name == name) = none := by
      simpa [contains, find?] using hname
    unfold find?
    rw [List.find?_append, hnone]
    simp

/-- Registers what is offered under a name, if it is a plugin. -/
def register (r : Registry) (name : Text) : Offer → Except Failure Registry
  | .function plugin => .ok (r.insert name plugin)
  | .named _ plugin => .ok (r.insert name plugin)
  | .other => .error .notPlugin

/-- Registers what is offered under the names it brings, until something brings none. -/
def registerAll (r : Registry) : List Offer → Registry × Option Failure
  | [] => (r, none)
  | .named name plugin :: rest => (r.insert name plugin).registerAll rest
  | _ :: _ => (r, some .wrongType)

/-- Counts a call. -/
def countCall (r : Registry) (name : Text) : Registry :=
  { plugins := r.plugins.map fun p => if p.name == name then { p with calls := p.calls + 1 } else p }

/-- The plugin that a declared value names. -/
def choose (r : Registry) (params : Entries) : Except Failure Registered :=
  match Entries.get params "plugin" with
  | .text name =>
    if name.isEmpty then .error .pluginUnnamed
    else
      match r.find? name with
      | some p => .ok p
      | none => .error (.pluginUnknown name)
  | name =>
    if !name.isTruthy then .error .pluginUnnamed
    else
      match name with
      | .atom a =>
        match a.display? with
        | some s => .error (.pluginUnknown s)
        | none => .error .badValue
      | _ => .error .wrongType

/-- The short description of a list of texts. -/
def describeNames (names : List Text) : Text :=
  "[" ++ Text.join ", " (names.map quoted) ++ "]"

/-- The short description of a registry. -/
def describe (r : Registry) : Text :=
  "ValuePluginRegistry(" ++ describeNames r.names ++ ")"

end Registry

end StockFlow
