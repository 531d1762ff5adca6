import QueryConsole.Proofs.Dispatch
import QueryConsole.Proofs.Dispatch.Requests
import QueryConsole.Proofs.Proxy
import QueryConsole.Session

set_option autoImplicit false

namespace QueryConsole

section Answers

variable (channel : Channel)

namespace Plan

variable {α : Type}

/-- The calls of a plan that the service receives and what the plan comes to, where each of them is
answered by its number and the first has the number `k`. -/
def numbered (answer : Nat → Except Status Record) :
    Nat → Plan α → List Call × Except Failure α
  | _, .done outcome => ([], outcome)
  | k, .call operation args go =>
    match channel.refusal? ⟨operation, args, channel.service⟩ with
    | some s => numbered answer k (go (.error s))
    | none =>
      let rest := numbered answer (k + 1) (go (answer k))
      (⟨operation, args, channel.service⟩ :: rest.1, rest.2)

theorem numbered_eq_run (script : Script) (k : Nat) (p : Plan α) :
    p.numbered channel (script.result channel) k =
      ((p.run channel (script.drop k)).calls, (p.run channel (script.drop k)).outcome) := by
  induction p generalizing k with
  | done outcome => rfl
  | call operation args go ih =>
    rw [numbered, run]
    cases hrefusal : channel.refusal? ⟨operation, args, channel.service⟩ with
    | some s =>
      simp only [Channel.exchange_of_refusal _ hrefusal, List.nil_append]
      exact ih (.error s) k
    | none =>
      have hresult : Script.result (script.drop k) channel 0 = script.result channel k := by
        rw [Script.result, List.drop_zero, Script.result]
      simp only [Channel.exchange_of_receives _ hrefusal, List.singleton_append]
      rw [ih, List.drop_drop, hresult]

theorem service_of_mem_calls (script : Script) (p : Plan α) :
    ∀ call ∈ (p.run channel script).calls, call.service = channel.service := by
  induction p generalizing script with
  | done outcome => exact List.forall_mem_nil _
  | call operation args go ih =>
    simp only [run]
    rw [Channel.calls_exchange]
    intro call hcall
    obtain hfirst | hlater := List.mem_append.mp hcall
    · rw [List.mem_singleton.mp (List.mem_of_mem_filter hfirst)]
    · exact ih _ _ call hlater

theorem length_made_dispatch_le (script : Script) (i : Invocation) :
    ((dispatch i).run channel script).made.length ≤ 2 := by
  rw [dispatch]
  cases i.mode with
  | describe kind => exact (described_run channel kind script).length_made_le
  | single kind hintId sql => simp [run_query]
  | batch kind hintId sql extra => simp [run_query]

end Plan

end Answers

/-- A step that makes a call and at most so many further ones. If the call is refused, the step ends
with that, and the service receives nothing. -/
structure StepReport.Makes (report : StepReport) (channel : Channel) (call : Call)
    (further : Nat) : Prop where
  received : channel.refusal? call = none →
    ∃ later, report.calls = call :: later ∧ later.length ≤ further
  refused : ∀ s, channel.refusal? call = some s →
    report.calls = [] ∧ report.outcome = .error (.failure (.remote s))

def Step.Makes (channel : Channel) : Step → StepReport → Prop
  | .arguments args, report =>
    match Invocation.resolve args with
    | .error fault => report.calls = [] ∧ report.outcome = .error (.args fault)
    | .ok i => report.Makes channel (firstCall channel.service i) 1
  | .dispatch i, report => report.Makes channel (firstCall channel.service i) 1
  | .kindInfo kind facets, report =>
    report.Makes channel (kindInfoCall channel.service kind facets) 0
  | .invoke operation args, report => report.Makes channel ⟨operation, args, channel.service⟩ 0

section Steps

variable (channel : Channel)

theorem Plan.makes_run {p : Plan StepResult} {operation : Text} {args : Record}
    {go : Except Status Record → Plan StepResult} {script : Script} {further : Nat}
    (hplan : p = .call operation args go)
    (hfails : ∀ s, go (.error s) = .done (.error (.remote s)))
    (hmade : (p.run channel script).made.length ≤ further + 1) :
    StepReport.Makes
      ⟨(p.run channel script).calls, (p.run channel script).outcome.mapError .failure⟩ channel
      ⟨operation, args, channel.service⟩ further where
  received hnone := by
    subst hplan
    simp only [run, Channel.exchange_of_receives script hnone] at hmade ⊢
    refine ⟨_, rfl, ?_⟩
    rw [calls_run]
    exact (List.length_filter_le _ _).trans (Nat.le_of_succ_le_succ hmade)
  refused s hsome := by
    subst hplan
    simp only [run, Channel.exchange_of_refusal script hsome, hfails]
    exact ⟨rfl, rfl⟩

theorem Plan.map_call {α β : Type} (f : α → β) (operation : Text) (args : Record)
    (go : Except Status Record → Plan α) :
    (Plan.call operation args go).map f = .call operation args fun result => (go result).map f :=
  rfl

theorem Plan.makes_dispatch (i : Invocation) (script : Script) :
    StepReport.Makes
      ⟨(((dispatch i).map StepResult.outputs).run channel script).calls,
        (((dispatch i).map StepResult.outputs).run channel script).outcome.mapError .failure⟩
      channel (firstCall channel.service i) 1 := by
  obtain ⟨go, hplan, hfails⟩ := exists_dispatch_eq_call i
  have hmade : (((dispatch i).map StepResult.outputs).run channel script).made.length ≤ 2 := by
    rw [run_map]
    exact length_made_dispatch_le channel script i
  refine makes_run channel (by rw [hplan, map_call]) (fun s => ?_) hmade
  rw [hfails]
  rfl

namespace Step

theorem makes_run (script : Script) (step : Step) :
    step.Makes channel (step.run channel script).1 := by
  cases step with
  | arguments args =>
    rw [Makes, run, plan]
    cases Invocation.resolve args with
    | error fault => exact ⟨rfl, rfl⟩
    | ok i => exact Plan.makes_dispatch channel i script
  | dispatch i => exact Plan.makes_dispatch channel i script
  | kindInfo kind facets =>
    refine Plan.makes_run channel rfl (fun _ => rfl) ?_
    simp [Plan.run_map, Plan.run_kindInfo]
  | invoke operation args =>
    refine Plan.makes_run channel rfl (fun _ => rfl) ?_
    simp [Plan.run_map, Plan.run_invoke]

def numbered (answer : Nat → Except Status Record) (k : Nat) (step : Step) : StepReport :=
  match step.plan with
  | .error fault => ⟨[], .error (.args fault)⟩
  | .ok plan =>
    let r := plan.numbered channel answer k
    ⟨r.1, r.2.mapError .failure⟩

theorem numbered_eq_run (script : Script) (k : Nat) (step : Step) :
    step.numbered channel (script.result channel) k = (step.run channel (script.drop k)).1 := by
  rw [numbered, run]
  cases step.plan with
  | error fault => rfl
  | ok plan =>
    simp only [Plan.numbered_eq_run]

theorem service_of_mem_calls (script : Script) (step : Step) :
    ∀ call ∈ (step.run channel script).1.calls, call.service = channel.service := by
  rw [run]
  cases step.plan with
  | error fault => exact List.forall_mem_nil _
  | ok plan => exact Plan.service_of_mem_calls channel script plan

theorem left_run (script : Script) (step : Step) :
    (step.run channel script).2 = script.drop (step.run channel script).1.calls.length := by
  rw [run]
  cases step.plan with
  | error fault => rfl
  | ok plan => exact Plan.left_run channel plan script

end Step

namespace Session

def numbered (answer : Nat → Except Status Record) : Nat → List Step → List StepReport
  | _, [] => []
  | k, step :: steps =>
    let report := step.numbered channel answer k
    report :: numbered answer (k + report.calls.length) steps

def calls (reports : List StepReport) : List Call := reports.flatMap StepReport.calls

theorem run_cons (step : Step) (steps : List Step) (script : Script) :
    run channel (step :: steps) script =
      (step.run channel script).1 ::
        run channel steps (script.drop (step.run channel script).1.calls.length) := by
  rw [run, Step.left_run]

theorem numbered_eq_run (script : Script) (k : Nat) (steps : List Step) :
    numbered channel (script.result channel) k steps = run channel steps (script.drop k) := by
  induction steps generalizing k with
  | nil => rfl
  | cons step steps ih =>
    rw [run_cons, List.drop_drop, ← ih, numbered, Step.numbered_eq_run]

theorem service_of_mem_calls (steps : List Step) (script : Script) :
    ∀ report ∈ run channel steps script, ∀ call ∈ report.calls, call.service = channel.service := by
  induction steps generalizing script with
  | nil => exact List.forall_mem_nil _
  | cons step steps ih =>
    rw [run_cons]
    exact List.forall_mem_cons.mpr ⟨Step.service_of_mem_calls channel script step, ih _⟩

end Session

end Steps

namespace Session

end Session

end QueryConsole
