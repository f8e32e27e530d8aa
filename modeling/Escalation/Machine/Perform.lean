import Escalation.Machine.Threads

/-!
# Performing operations

An operation first finds what it names, and is refused if that does not exist (`Attempt`). It then
acts, and its answer is recorded once it is done (`Run.attempt`). What it raises passes on, and
leaves no record of the operation.
-/

set_option autoImplicit false
set_option relaxedAutoImplicit false

namespace Escalation

/-- A part of an operation that may be refused. -/
abbrev Attempt := ExceptT Refusal Run

namespace Run

/-- Refuses an operation. -/
def refuse {α : Type} (refusal : Refusal) : Attempt α := ExceptT.mk (pure (.error refusal))

/-- A value that has to exist. -/
def require {α : Type} (refusal : Refusal) : Option α → Attempt α
  | some value => pure value
  | none => refuse refusal

/-- Performs an operation that answers. -/
def attempt (op : Op) (action : Attempt Answer) : Run Unit := do
  match ← action.run with
  | .ok answer => record (.performed op.name answer)
  | .error refusal => record (.refused op.name refusal)

/-! ### Finding what an operation names -/

/-- The failure that is being handled. -/
def handledFailure? : Run (Option Failure) := do
  match (← thread).handling with
  | some { event := .failure _ reported, .. } => return some reported
  | _ => return none

/-- The line that is being handled. -/
def handledLine? : Run (Option Line) := do
  match (← thread).handling with
  | some { event := .line sent, .. } => return some sent
  | _ => return none

/-- The failure that an operation means. -/
def findFailure : Source → Attempt Failure
  | .slot name => do return (← require .noSuchFailure ((← thread).slots.find? name)).copy
  | .handled => do return (← require .noSuchFailure (← handledFailure?)).copy
  | .made draft => liftM (build draft)

/-- The line that a recipe starts from where none is being handled. -/
def emptyLine : Line := { site := { file := "l.rs", line := 0 }, depth := 0, text := "" }

/-- The line of a recipe. -/
def buildLine (recipe : LineRecipe) : Attempt Line := do
  let taken := (← handledLine?).getD emptyLine
  let text ← match recipe.textOf with
    | some (.display, source) => pure (← findFailure source).text
    | some (.description, source) => pure (← findFailure source).description
    | none => pure (recipe.text.getD taken.text)
  return {
    site := { file := recipe.file.getD taken.site.file, line := recipe.line.getD taken.site.line }
    depth := recipe.depth.getD taken.depth
    text := recipe.before ++ text ++ recipe.behind }

/-- The link of a destination. -/
def findLink : Destination → Attempt Link
  | .current => liftM current
  | .root => pure .root
  | .override depth => pure (.override depth)
  | .next => do return (← require .notHandling (← thread).handling).next

/-- The index of a policy. -/
def findPolicy (name : String) : Attempt Nat := do
  require .noSuchPolicy ((← thread).policyNames.find? name)

/-- The override object of a recipe, of which the caller becomes an owner. -/
def obtain : Recipe → Attempt ObjectId
  | .transparent => liftM (newObject .transparent)
  | .script script => liftM (newObject (.script script))
  | .context remark => liftM (newObject (.context remark))
  | .bridge level => liftM (newObject (.bridge level))
  | .policy name => do newObject (.policy (← findPolicy name))
  | .shared name => do
    let object ← require .noSuchShared ((← thread).shared.find? name)
    let _ ← acquire object
    return object

/-! ### Operations on failures -/

/-- Annotates a failure in place. -/
def annotate (target : Target) (site : Site) (description : String) (times : Nat) :
    Attempt Answer := do
  match target with
  | .slot name =>
    let held ← require .noSuchFailure ((← thread).slots.find? name)
    let annotated := held.annotateRepeatedly site description times
    store name annotated
    return .contextDepth annotated.contextDepth
  | .handled =>
    match (← thread).handling with
    | some { event := .failure severity reported, next } =>
      let annotated := reported.annotateRepeatedly site description times
      modifyThread fun thread ↦
        { thread with handling := some { event := .failure severity annotated, next } }
      return .contextDepth annotated.contextDepth
    | _ => refuse .noSuchFailure

/-- The number of remarks shown at once. -/
def remarkLimit : Nat := 20

/-- The texts of a failure's remarks behind the first `skip`, as far as they are shown at once. -/
def listContext (failure : Failure) (skip : Nat) : Answer :=
  let left := (failure.contexts.advance skip).collect.toList
  .remarks ((left.take remarkLimit).map Remark.text) (remarkLimit < left.length)

/-- A part of a failure, shown structurally. Nothing is shown so where addresses are hidden. -/
def inspect (source : Source) (part : Part) (layout : Text.Layout) : Attempt Answer := do
  if (← process).addressesHidden then refuse .addressesHidden
  else
    let failure ← findFailure source
    match part with
    | .context => return .text (contextStructure? layout failure.context)
    | .whole => return .text (failure.structureText layout)

/-! ### Operations on overrides -/

/-- Installs an override object that the caller owns and keeps its guard. -/
def pushObject (exec : Exec) (object : ObjectId) (name : String) (keep : Bool) : Run Answer := do
  let guard ← install exec object
  keepGuard name guard keep
  return .depth guard.depth

/-- The structural text of a guard. -/
def guardText (guard : Guard) : String :=
  Text.Layout.inline.record "CallbackGuard"
    [("depth", toString guard.depth), ("generation", toString guard.generation.toNat),
      ("_not_send", "PhantomData<alloc::rc::Rc<()>>")]

/-- Shows an override, where its recipe says all about it. -/
def inspectOverride : Recipe → Attempt Answer
  | .context remark =>
    return .context remark.description
      (Text.Layout.inline.record "ContextCallback"
        [("file", Text.quoted remark.site.file), ("line", toString remark.site.line.toNat),
          ("description", Text.quoted remark.description)])
  | .bridge level =>
    return .bridge level (Text.Layout.inline.record "LogBridge" [("level", level.name)])
  | _ => refuse (.badField "kind")

/-- Shares an override object under a name; the one shared before is given up. -/
def share (exec : Exec) (object : ObjectId) (name : String) : Run Answer := do
  let before := (← thread).shared.find? name
  modifyThread fun thread ↦ { thread with shared := thread.shared.insert name object }
  before.forM (relinquish exec)
  return .replaced before.isSome

/-- Gives up the override shared under a name. -/
def unshare (exec : Exec) (name : String) : Run Answer := do
  let before := (← thread).shared.find? name
  modifyThread fun thread ↦ { thread with shared := thread.shared.erase name }
  before.forM (relinquish exec)
  return .flag before.isSome

/-! ### Control -/

/-- What a scope does on leaving. -/
def runDeferred (exec : Exec) : Option Cleanup → Run Unit
  | none => return
  | some cleanup => do
    record (.deferred (← isUnwinding))
    runCleanup exec .deferred cleanup

/-- Runs a list in a frame of its own, and a cleanup before the guards of the frame are released. -/
def runScope (exec : Exec) (body : List Op) (deferred : Option Cleanup) : Run Unit := do
  openFrame
  andFinally (body.forM fun op ↦ exec (.perform op))
    (andFinally (runDeferred exec deferred) (exec .closeFrame))

/-- Runs a list with an override installed, which is released on every way out. -/
def runWithin (exec : Exec) (object : ObjectId) (body : List Op) : Run Answer := do
  let guard ← install exec object
  let inside ← andFinally (do runList exec body; height) (exec (.release guard))
  return .heights inside (← height)

/-- Executes a statement of source code. -/
def execute (exec : Exec) (statement : Statement) (slot : String) (keep : Bool) :
    Run Answer := do
  let site := (← process).statementSite
  match statement with
  | .expect nature holds condition message =>
    if !holds then
      let description := Statement.expectation condition message
      let failure ← build { site, origin := .classified nature .permanent description }
      exec (.deliver (.failure .recoverable failure) (← current))
    return .returned
  | .fatal nature durability description =>
    let failure ← build { site, origin := .classified nature durability description }
    exec (.deliver (.failure .fatal failure) (← current))
    return .returned
  | .line text =>
    exec (.deliver (.line { site, depth := 0, text := text ++ "\n" }) (← current))
    return .returned
  | .context description =>
    pushObject exec (← newObject (.context { site, description })) slot keep
  | .failure nature durability description =>
    let failure ← build { site, origin := .classified nature durability description }
    store slot failure
    return .failure failure

/-! ### Policies -/

/-- The settings of a recipe, in a build that raises failures or does not. -/
def policySettings (throwing : Bool) (recipe : PolicyRecipe) : Settings :=
  let settings : Settings :=
    { throwing := recipe.throwing.getD throwing, capturing := recipe.capturing,
      indent := recipe.indent }
  if recipe.logOnly then settings.logOnly else settings

/-- Makes a policy and names it. -/
def makePolicy (name : String) (recipe : PolicyRecipe) : Run Answer := do
  let settings := policySettings (← process).throwing recipe
  let sink : Sink := match recipe.writer with
    | none => .diagnostics
    | some plan => .writer { plan }
  let policy : Policy := { settings, sink }
  modifyThread fun thread ↦
    { thread with
      policyNames := thread.policyNames.insert name thread.policies.size
      policies := thread.policies.push policy }
  return .policy settings policy.structureText

/-- Shows what the writer of a policy has taken; a policy without one has taken nothing. -/
def inspectWriter (index : Nat) : Run Answer := do
  match (← thread).policies[index]? with
  | some { sink := .writer writer, .. } =>
    return .written writer.data.toList writer.writes writer.flushes
  | _ => return .written [] 0 0

/-- The event that is handed to a policy directly. -/
def findEvent (kind : EventKind) (source : Source) (line : LineRecipe) : Attempt Event := do
  match kind with
  | .failure severity => return .failure severity (← findFailure source)
  | .line => return .line (← buildLine line)

/-- Captures the addresses of the call stack into a row of some cells. -/
def captureInto (capacity : Nat) : Run Answer := do
  let (cells, count) := capture (← process).walk (Vector.replicate capacity 0)
  return .captured count (cells.toList.countP (· != 0))

/-! ### All operations -/

/-- Performs an operation. -/
def perform (exec : Exec) (op : Op) : Run Unit := do
  match op with
  | .malformed name refusal => record (.refused name refusal)
  | .make slot draft => attempt op do
    let failure ← build draft
    store slot failure
    return .failure failure
  | .copy source slot => attempt op do
    let failure ← findFailure source
    store slot failure
    return .failure failure
  | .discard slot => attempt op do
    let held := (← thread).slots.find? slot
    modifyThread fun thread ↦ { thread with slots := thread.slots.erase slot }
    return .flag held.isSome
  | .annotate target site description times => attempt op do
    annotate target site description times
  | .describe source => attempt op do return .described (← findFailure source)
  | .listContext source skip => attempt op do return listContext (← findFailure source) skip
  | .inspect source part layout => attempt op (inspect source part layout)
  | .compare first second skipFirst skipSecond => attempt op do
    let first ← findFailure first
    let second ← findFailure second
    return .equality
      (Remark.sameChain (first.contextFrom skipFirst) (second.contextFrom skipSecond))
  | .report severity source destination => attempt op do
    let failure ← findFailure source
    exec (.deliver (.failure severity failure) (← findLink destination))
    return .returned
  | .log line destination => attempt op do
    let line ← buildLine line
    exec (.deliver (.line line) (← findLink destination))
    return .returned
  | .delegate source line => attempt op do
    let handling ← require .notHandling (← thread).handling
    exec (.deliver (← findEvent handling.event.kind source line) handling.next)
    return .returned
  | .throw source => attempt op do raise (.failure (← findFailure source))
  | .panic payload => attempt op (raise payload)
  | .state statement slot keep => attempt op (execute exec statement slot keep)
  | .push recipe guard keep => attempt op do pushObject exec (← obtain recipe) guard keep
  | .pushContext remark guard keep => attempt op do
    pushObject exec (← obtain (.context remark)) guard keep
  | .release name => attempt op do
    exec (.release (← require .noSuchGuard (← takeGuard? name)))
    return .depth (← height)
  | .forget name => attempt op do
    let _ ← require .noSuchGuard (← takeGuard? name)
    return .depth (← height)
  | .inspectGuard name => attempt op do
    let guard ← require .noSuchGuard (← findGuard? name)
    return .guard guard.depth (guardText guard)
  | .inspectStack => attempt op do return .stack (← height) (← current)
  | .share recipe name => attempt op do share exec (← obtain recipe) name
  | .unshare name => attempt op (unshare exec name)
  | .inspectOverride recipe => attempt op (inspectOverride recipe)
  | .scope body deferred => attempt op do
    runScope exec body deferred
    return .completed
  | .guarded body deferred slot => attempt op do
    match ← catching (runScope exec body deferred) with
    | .ok _ => return .ok body.length
    | .error failure =>
      store slot failure
      return .raised failure
  | .within recipe body => attempt op do runWithin exec (← obtain recipe) body
  | .thread plan ops slot => attempt op do
    match ← runThread exec plan ops with
    | none => return .joined
    | some payload =>
      let failure ← absorb payload
      store slot failure
      return .raised failure
  | .makePolicy name recipe => attempt op (makePolicy name recipe)
  | .handle policy kind source line => attempt op do
    let index ← findPolicy policy
    concludeBy exec index (← findEvent kind source line)
    return .returned
  | .inspectWriter policy => attempt op do inspectWriter (← findPolicy policy)
  | .inspectRoot => attempt op do
    let settings ← rootSettings
    return .policy settings { settings, sink := .diagnostics : Policy }.structureText
  | .setUpLog => attempt op (return .returned)
  | .capture capacity => attempt op (captureInto capacity)
  | .hook => attempt op do
    installHook
    return .returned

end Run

end Escalation
