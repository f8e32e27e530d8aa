import Escalation.Proofs.Emission

/-!
# Programs of reporting statements in nested scopes

A narrative is a program of statements that report, in scopes that annotate what is reported in them
or forward its lines to the log of the program (`Narrative`). A scope starts anywhere in a block and
lasts to its end, or is the body of an installation. Its statements report events in an order that
its text alone decides, each from inside the scopes that are open there (`Narrative.reports`).

What comes of these reports is told by an account (`Account`): the emissions in order, and the
failure that is raised if one is. A build that raises stops at the first failure, which arrives with
the remarks of all open scopes (`arrived`); a build that does not sends its text as a line to the
open scopes, and goes on (`accountOf`). So the account of a build without raising has one emission
for each report (`accountOf_quiet`), and that of a build with raising is the beginning of it up to
the first failure (`accountOf_of_lines`, `accountOf_of_first`).
-/

set_option autoImplicit false
set_option relaxedAutoImplicit false

namespace Escalation

/-! ### Narratives -/

/-- A statement that reports. Those of source code stand at a place of their own; the others say
where they stand. -/
inductive Told
  /-- Reports a recoverable failure unless a condition holds. -/
  | expect (nature : Nature) (holds : Bool) (condition : String) (message : Option String)
  /-- Reports a fatal failure. -/
  | fatal (nature : Nature) (durability : Durability) (description : String)
  /-- Sends a line. -/
  | line (text : String)
  /-- Delivers a new failure to the top of the chain. -/
  | report (severity : Severity) (draft : Draft)
  /-- Sends a line from somewhere. -/
  | lineFrom (site : Site) (text : String)

/-- What a scope does with what is reported in it. -/
inductive Scope
  /-- A statement of source code annotates it. -/
  | context (description : String)
  /-- Annotates it, from somewhere. -/
  | contextFrom (remark : Remark)
  /-- Forwards its lines. -/
  | bridge (level : Level)

/-- A block of reporting statements and scopes. -/
inductive Narrative
  /-- The end of the block. -/
  | done
  /-- A statement. -/
  | state (told : Told) (rest : Narrative)
  /-- A scope that lasts to the end of the block. -/
  | enter (scope : Scope) (rest : Narrative)
  /-- A block inside the block. -/
  | block (body rest : Narrative)
  /-- A block whose lines are forwarded. -/
  | within (level : Level) (body rest : Narrative)

/-- The operation of a statement. -/
def Told.op : Told → Op
  | .expect nature holds condition message =>
    .state (.expect nature holds condition message) "" false
  | .fatal nature durability description => .state (.fatal nature durability description) "" false
  | .line text => .state (.line text) "" false
  | .report severity draft => .report severity (.made draft) .current
  | .lineFrom site text =>
    let line : LineRecipe :=
      { file := some site.file, line := some site.line, depth := some 0
        text := some (text ++ "\n") }
    .log line .current

/-- What a statement reports, where statements of source code stand at `site` and no addresses are
captured. -/
def Told.event? (site : Site) : Told → Option Event
  | .expect nature holds condition message =>
    if holds then none
    else
      let description := Statement.expectation condition message
      let draft : Draft := { site, origin := .classified nature .permanent description }
      some (.failure .recoverable (draft.build []))
  | .fatal nature durability description =>
    let draft : Draft := { site, origin := .classified nature durability description }
    some (.failure .fatal (draft.build []))
  | .line text => some (.line { site, depth := 0, text := text ++ "\n" })
  | .report severity draft => some (.failure severity (draft.build []))
  | .lineFrom other text => some (.line { site := other, depth := 0, text := text ++ "\n" })

namespace Scope

/-- The name of the guards of scopes, which nothing asks for. -/
def guardName : String := "scope"

/-- The operation that opens a scope. -/
def op : Scope → Op
  | .context description => .state (.context description) guardName false
  | .contextFrom remark => .pushContext remark guardName false
  | .bridge level => .push (.bridge level) guardName false

/-- The override of a scope, where statements of source code stand at `site`. -/
def override (site : Site) : Scope → Override
  | .context description => .context { site, description }
  | .contextFrom remark => .context remark
  | .bridge level => .bridge level

end Scope

namespace Narrative

/-- The operations of a block. -/
def ops : Narrative → List Op
  | .done => []
  | .state told rest => told.op :: rest.ops
  | .enter scope rest => scope.op :: rest.ops
  | .block body rest => .scope body.ops none :: rest.ops
  | .within level body rest => .within (.bridge level) body.ops :: rest.ops

/-- The number of statements and scopes of a block, inner ones included. -/
def size : Narrative → ℕ
  | .done => 0
  | .state _ rest | .enter _ rest => rest.size + 1
  | .block body rest | .within _ body rest => body.size + rest.size + 1

end Narrative

/-! ### What is reported -/

/-- An event that is reported from inside some scopes, the innermost first. -/
structure Report where
  /-- The overrides of the open scopes. -/
  scopes : List Override
  /-- What is reported. -/
  event : Event

namespace Narrative

/-- What a block reports from inside some scopes, in the order of its statements. -/
def reports (site : Site) : Narrative → (scopes : List Override) → List Report
  | .done, _ => []
  | .state told rest, scopes =>
    ((told.event? site).toList.map fun event ↦ { scopes, event }) ++ rest.reports site scopes
  | .enter scope rest, scopes => rest.reports site (scope.override site :: scopes)
  | .block body rest, scopes => body.reports site scopes ++ rest.reports site scopes
  | .within level body rest, scopes =>
    body.reports site (.bridge level :: scopes) ++ rest.reports site scopes

end Narrative

/-- A failure as it arrives outside of all scopes: behind the remarks of the annotating ones, the
outermost first. -/
def arrived (scopes : List Override) (reported : Failure) : Failure :=
  { reported with
    context := (scopes.filterMap Override.remark?).reverse ++ reported.context }

namespace Report

/-- The line that a report comes out as where nothing is raised. A failure that is logged is a line
from its place, and holds its text and a line end. -/
def asLine (report : Report) : Line :=
  match report.event with
  | .line sent => sent
  | .failure _ reported =>
    let logged := arrived report.scopes reported
    { site := logged.site, depth := 0, text := logged.text ++ "\n" }

/-- The emission of a report where nothing is raised. -/
def emission (settings : Settings) (report : Report) : Emission :=
  emissionOn settings #[] report.scopes report.asLine

/-- Raising or not makes no difference to an emission. -/
theorem emission_throwing (settings : Settings) (throwing : Bool) :
    emission { settings with throwing } = emission settings := by
  funext report
  unfold emission emissionOn emissionAt
  rcases outlet report.scopes with _ | level | index | _ <;> rfl

end Report

/-! ### Accounts -/

/-- What comes of a list of reports. -/
structure Account where
  /-- What comes out, in order. -/
  emissions : List Emission := []
  /-- What is raised in the end. -/
  raised : Option Failure := none

namespace Account

/-- The account of two parts one after another: nothing follows what is raised. -/
def andThen (first next : Account) : Account :=
  match first.raised with
  | none => { emissions := first.emissions ++ next.emissions, raised := next.raised }
  | some _ => first

@[simp] theorem nil_andThen (account : Account) : Account.andThen {} account = account := rfl

@[simp] theorem andThen_nil (account : Account) : account.andThen {} = account := by
  rcases account with ⟨emissions, _ | raised⟩ <;> simp [andThen]

theorem andThen_assoc (first second third : Account) :
    (first.andThen second).andThen third = first.andThen (second.andThen third) := by
  rcases first with ⟨_, _ | _⟩ <;> rcases second with ⟨_, _ | _⟩ <;> simp [andThen]

end Account

/-- What comes of a report in a build with these settings. -/
def Report.account (settings : Settings) (report : Report) : Account :=
  match report.event with
  | .line _ => { emissions := [report.emission settings] }
  | .failure _ reported =>
    if settings.throwing then { raised := some (arrived report.scopes reported) }
    else { emissions := [report.emission settings] }

/-- What comes of reports one after another in a build with these settings. -/
def accountOf (settings : Settings) : List Report → Account
  | [] => {}
  | report :: rest => (report.account settings).andThen (accountOf settings rest)

section AccountOf

variable {settings : Settings}

theorem accountOf_append (reports others : List Report) : accountOf settings (reports ++ others) =
    (accountOf settings reports).andThen (accountOf settings others) := by
  induction reports with
  | nil => rfl
  | cons report rest ih =>
    rw [List.cons_append, accountOf, ih, accountOf, Account.andThen_assoc]

/-- A build without raising has one emission for each report. -/
theorem accountOf_quiet (h : settings.throwing = false) (reports : List Report) :
    accountOf settings reports = { emissions := reports.map (Report.emission settings) } := by
  induction reports with
  | nil => rfl
  | cons report rest ih =>
    have hreport : report.account settings = { emissions := [report.emission settings] } := by
      unfold Report.account
      rcases report.event with ⟨severity, reported⟩ | sent
      · simp [h]
      · rfl
    rw [accountOf, ih, hreport]
    rfl

/-- Lines come out in every build. -/
theorem accountOf_of_lines {reports : List Report}
    (h : ∀ report ∈ reports, report.event.kind = .line) :
    accountOf settings reports = { emissions := reports.map (Report.emission settings) } := by
  induction reports with
  | nil => rfl
  | cons report rest ih =>
    rw [List.forall_mem_cons] at h
    have hreport : report.account settings = { emissions := [report.emission settings] } := by
      rcases report with ⟨scopes, ⟨severity, reported⟩ | sent⟩
      · exact absurd h.1 (by simp [Event.kind])
      · rfl
    rw [accountOf, ih h.2, hreport]
    rfl

/-- A build with raising stops at the first failure. -/
theorem accountOf_of_first {before later : List Report} {scopes : List Override}
    {severity : Severity} {reported : Failure} (hthrowing : settings.throwing = true)
    (h : ∀ report ∈ before, report.event.kind = .line) :
    accountOf settings (before ++ { scopes, event := .failure severity reported } :: later) =
      { emissions := before.map (Report.emission settings)
        raised := some (arrived scopes reported) } := by
  rw [accountOf_append, accountOf_of_lines h, accountOf]
  simp [Report.account, Account.andThen, hthrowing]

end AccountOf

end Escalation
