import StockFlow.Plugin.Registry
import StockFlow.Value.Network
/-!
# Reading values

The value of a node is its declared number, or else the sum of the links that enter it, or of the
links that leave it if none enters. The value of a link follows from its declared expression: a
number; the rest of its source, which is the value of the source less its other links; the sum of
the links that leave its target; a percentage of its source; or the answer of a plugin.

`Network.step` computes one value and is handed a way to read the values it depends on, in any kind
of computation that can fail; `Network.visit` ties the knot. A reading may remember the values it has
computed: with a memo open, a value is computed once and then looked up, and a value that could not be
computed is not remembered. Computing a value takes the room of one value on the stack, and so does
looking it up; where no room is left, a reading goes too deep, whether the chain of values ends or not.
-/

namespace StockFlow

/-- The values that have been computed. -/
abbrev Memo := List (Item × Datum)

/-- A call of a plugin for a link, and whether it answered. -/
structure Call where
  link : LinkId
  plugin : Text
  answered : Bool
deriving DecidableEq

/-- What a reading carries along: the memo if one is open, the registry with its counts of calls,
and the calls made for links, the latest first. -/
structure Reading where
  memo? : Option Memo
  registry : Registry
  calls : List Call := []

/-- Computations that read values. What was remembered and counted stays when one fails. -/
abbrev Read := ExceptT Failure (StateM Reading)

namespace Read

/-- The outcome of a computation that needs no reading. -/
def ofExcept {α : Type} : Except Failure α → Read α
  | .ok a => pure a
  | .error failure => throw failure

/-- Runs a computation and gives its outcome as a value. -/
def attempt {α : Type} (x : Read α) : Read (Except Failure α) :=
  ExceptT.mk do
    let outcome ← x.run
    return .ok outcome

/-- The remembered value of an item. -/
def remembered? (item : Item) : Read (Option Datum) := do
  let s ← get
  return s.memo?.bind fun memo => memo.lookup item

/-- Remembers a value if a memo is open. -/
def remember (item : Item) (value : Datum) : Read Unit :=
  modify fun s => { s with memo? := s.memo?.map fun memo => (item, value) :: memo }

/-- Runs a computation with a memo that is closed afterwards, whether or not it fails. If a memo is
open already, that one is used and stays open. -/
def inPass {α : Type} (x : Read α) : Read α := do
  let s ← get
  match s.memo? with
  | some _ => x
  | none =>
    set { s with memo? := some [] }
    let outcome ← attempt x
    modify fun s => { s with memo? := none }
    ofExcept outcome

end Read

/-! ## What a value depends on -/

section Steps

variable {m : Type → Type} [Monad m] [MonadExceptOf Failure m]

/-- The sum of the values of links, read one after the other. -/
def sumLinks (read : Item → m Datum) (ids : List LinkId) : m Number :=
  ids.foldlM (fun total id => do
    let value ← read (.link id)
    MonadExcept.ofExcept do total.add (← value.operand)) (.int 0)

/-- A percentage of a value, rounded to a whole number. -/
def percentOf (value : Datum) (percentage : Number) : Except Failure Datum := do
  let number ← value.operand
  let product ← number.mul percentage
  let share ← product.hundredth
  return .int (← (Number.float share).roundHalfUp)

namespace Network

/-- Reads what a script asks for, as seen from a link. -/
def probe (net : Network) (read : Item → m Datum) (id : LinkId) : Probe → m Datum
  | .value place =>
    match net.nodeAt? id place with
    | some n => read (.node n.name)
    | none => throw .outOfBounds
  | .outgoingValue place =>
    match net.nodeAt? id place with
    | some n => do return (← sumLinks read n.linkIds).toDatum
    | none => throw .outOfBounds
  | .incomingCount place =>
    match net.nodeAt? id place with
    | some n => return .int n.incoming.length
    | none => throw .outOfBounds
  | .outgoingCount place =>
    match net.nodeAt? id place with
    | some n => return .int n.outgoing.length
    | none => throw .outOfBounds
  | .incomingLink place position =>
    match (net.nodeAt? id place).bind fun n => n.incoming[position]? with
    | some entering => read (.link entering)
    | none => throw .outOfBounds
  | .outgoingLink place position =>
    match (net.nodeAt? id place).bind fun n => n.linkIds[position]? with
    | some leaving => read (.link leaving)
    | none => throw .outOfBounds

/-- Computes the value of a node. -/
def nodeStep (net : Network) (read : Item → m Datum) (name : Text) : m Datum := do
  match net.node? name, net.resolver? name with
  | some n, some resolver =>
    match resolver.declaredNumber? n.value with
    | some number => return number.toDatum
    | none =>
      let ids := if n.incoming.isEmpty then n.linkIds else n.incoming
      return (← sumLinks read ids).toDatum
  | some _, none => throw (.detachedNode name)
  | none, _ => throw .wrongType

/-- Computes the value of a link, with a way to call the plugin that it names. -/
def linkStep (net : Network) (call : LinkId → (Probe → m Datum) → Entries → m Datum)
    (read : Item → m Datum) (id : LinkId) : m Datum := do
  match net.node? id.source, net.link? id with
  | some source, some link =>
    match classify link.value, link.value with
    | .number, value => return value
    | .plugin, value => call id (net.probe read id) (value.fields?.getD [])
    | .rest, _ => do
      let others ← sumLinks read (source.linkIds.filter fun other => other != id)
      let own ← read (.node source.name)
      return (← MonadExcept.ofExcept do (← own.operand).sub others).toDatum
    | .auto, _ =>
      match net.node? link.target with
      | some target => do return (← sumLinks read target.linkIds).toDatum
      | none => throw .wrongType
    | .percentage, .text s =>
      match parsePercentage s with
      | none => return .int 0
      | some percentage => do
        let value ← read (.node source.name)
        MonadExcept.ofExcept (percentOf value percentage)
    | .numericString, .text s => return ((parseNumber s).map Number.toDatum).getD .null
    | _, _ => return .int 0
  | _, _ => throw .wrongType

/-- Computes the value of an item, with a way to call plugins and a way to read the values it
depends on. -/
def step (net : Network) (call : LinkId → (Probe → m Datum) → Entries → m Datum)
    (read : Item → m Datum) : Item → m Datum
  | .node name => net.nodeStep read name
  | .link id => net.linkStep call read id

end Network

end Steps

/-! ## Reading -/

/-- Calls the plugin that the parameters name. -/
def callPlugin (read : Probe → Read Datum) (params : Entries) : Read Datum := do
  let s ← get
  let p ← Read.ofExcept (s.registry.choose params)
  modify fun s => { s with registry := s.registry.countCall p.name }
  match p.plugin with
  | .script body => (body params).run read
  | .cell answer => Read.ofExcept (answer p.calls params)

/-- Notes a call that was made for a link. Parameters that name no plugin make no call. -/
def noteCall (id : LinkId) (params : Entries) (answered : Bool) : Read Unit :=
  modify fun s =>
    match s.registry.choose params with
    | .ok p => { s with calls := ⟨id, p.name, answered⟩ :: s.calls }
    | .error _ => s

/-- What a failure of a plugin counts as for its link: running out of depth counts as a value that
depends on itself. -/
def Failure.forLink (failure : Failure) : Failure :=
  if failure = .exhausted then .tooDeep else failure

/-- Calls the plugin of a link. -/
def callForLink (id : LinkId) (read : Probe → Read Datum) (params : Entries) : Read Datum := do
  match ← Read.attempt (callPlugin read params) with
  | .ok value =>
    noteCall id params true
    return value
  | .error failure =>
    noteCall id params false
    throw failure.forLink

namespace Network

/-- Reads the value of an item where the stack has room left for some more values. -/
def visit (net : Network) : (room : Nat) → Item → Read Datum
  | 0, _ => throw .tooDeep
  | room + 1, item => do
    match net.itemResolver? item with
    | none => throw (net.detached item)
    | some _ =>
      match ← Read.remembered? item with
      | some value => return value
      | none =>
        let value ← net.step callForLink (net.visit room) item
        Read.remember item value
        return value

/-- Reads the value of an item on an empty stack. -/
def read (net : Network) (item : Item) : Read Datum :=
  net.visit net.room item

/-- Reads the value of a node. -/
def nodeValue (net : Network) (name : Text) : Read Datum :=
  net.read (.node name)

/-- Reads the value of a link. -/
def linkValue (net : Network) (id : LinkId) : Read Datum :=
  net.read (.link id)

/-- Reads the sum of the links that leave a node. -/
def outgoingValue (net : Network) (name : Text) : Read Datum :=
  match net.node? name with
  | some n => do return (← sumLinks net.read n.linkIds).toDatum
  | none => throw .wrongType

end Network

end StockFlow
