import QueryConsole.Service

/-!
Runs of plans. A run of one plan after another is the run of the first followed by the run of the
second on the replies that are left. A run takes one reply for each of its calls that the service
receives, and none for one that is refused.
-/

set_option autoImplicit false

namespace QueryConsole

@[simp] theorem mapError_ok {α ε φ : Type} (f : ε → φ) (a : α) :
    (Except.ok a).mapError f = .ok a := rfl

@[simp] theorem mapError_error {α ε φ : Type} (f : ε → φ) (e : ε) :
    (Except.error e : Except ε α).mapError f = .error (f e) := rfl

theorem mapError_eq_ok_iff {α ε φ : Type} {x : Except ε α} {f : ε → φ} {a : α} :
    x.mapError f = .ok a ↔ x = .ok a := by
  cases x with
  | error e => simp
  | ok b => simp

theorem mapError_eq_error_iff {α ε φ : Type} {x : Except ε α} {f : ε → φ} {e : φ} :
    x.mapError f = .error e ↔ ∃ d, x = .error d ∧ e = f d := by
  cases x with
  | error d => simp [eq_comm]
  | ok a => simp

def Script.result (script : Script) (channel : Channel) (k : Nat) : Except Status Record :=
  channel.arrival (Script.next (script.drop k)).sent

namespace Channel

variable (channel : Channel)

def receives (call : Call) : Bool := (channel.refusal? call).isNone

def results : List Call → Script → List (Except Status Record)
  | [], _ => []
  | call :: calls, script =>
    (channel.exchange call script).result :: results calls (channel.exchange call script).left

variable {channel} {call : Call}

theorem exchange_of_refusal {s : Status} (script : Script) (h : channel.refusal? call = some s) :
    channel.exchange call script = ⟨.error s, [], script⟩ := by
  rw [exchange, h]

theorem exchange_of_receives (script : Script) (h : channel.refusal? call = none) :
    channel.exchange call script = ⟨script.result channel 0, [call], script.drop 1⟩ := by
  rw [exchange, h, List.drop_one, Script.result, List.drop_zero]

theorem calls_exchange (script : Script) :
    (channel.exchange call script).calls = [call].filter channel.receives := by
  cases h : channel.refusal? call with
  | some s => simp [exchange_of_refusal script h, receives, h]
  | none => simp [exchange_of_receives script h, receives, h]

theorem left_exchange (script : Script) :
    (channel.exchange call script).left =
      script.drop (channel.exchange call script).calls.length := by
  cases h : channel.refusal? call with
  | some s => rw [exchange_of_refusal script h, List.length_nil, List.drop_zero]
  | none => rw [exchange_of_receives script h, List.length_singleton]

theorem getElem?_results {calls : List Call} (script : Script)
    (h : ∀ call ∈ calls, channel.refusal? call = none) {k : Nat} (hk : k < calls.length) :
    (channel.results calls script)[k]? = some (script.result channel k) := by
  induction calls generalizing script k with
  | nil => exact absurd hk (Nat.not_lt_zero k)
  | cons call calls ih =>
    obtain ⟨hcall, hcalls⟩ := List.forall_mem_cons.mp h
    rw [results, exchange_of_receives script hcall]
    cases k with
    | zero => rfl
    | succ k =>
      rw [List.getElem?_cons_succ, ih (script.drop 1) hcalls (Nat.lt_of_succ_lt_succ hk),
        Script.result, Script.result, List.drop_drop, Nat.add_comm 1 k]

end Channel

/-- Goes on with what a run came to, on the replies it left. A failure ends the run. -/
def Run.andThen {α β : Type} (r : Run α) (next : α → Script → Run β) : Run β :=
  match r.outcome with
  | .error failure => ⟨r.made, r.results, r.calls, .error failure, r.left⟩
  | .ok a =>
    let rest := next a r.left
    ⟨r.made ++ rest.made, r.results ++ rest.results, r.calls ++ rest.calls, rest.outcome,
      rest.left⟩

/-- How the calls of a run go through the script. -/
structure Run.InTurn {α : Type} (channel : Channel) (script : Script) (r : Run α) : Prop where
  results : r.results = channel.results r.made script
  received : r.calls = r.made.filter channel.receives
  taken : r.left = script.drop r.calls.length
  unrefused : (∀ call ∈ r.made, channel.refusal? call = none) →
    r.calls = r.made ∧
    ∀ k, k < r.made.length → r.results[k]? = some (script.result channel k)

namespace Plan

variable {α β : Type} (channel : Channel)

theorem run_invoke (operation : Text) (args : Record) (script : Script) :
    (invoke operation args).run channel script =
      let call : Call := ⟨operation, args, channel.service⟩
      let only := channel.exchange call script
      ⟨[call], [only.result], only.calls, only.result.mapError .remote, only.left⟩ := by
  simp only [invoke, run, List.append_nil]

theorem run_bind (p : Plan α) (next : α → Plan β) (script : Script) :
    (p.bind next).run channel script =
      (p.run channel script).andThen fun a left => (next a).run channel left := by
  induction p generalizing script with
  | done outcome =>
    cases outcome with
    | error failure => rfl
    | ok a => rfl
  | call operation args go ih =>
    rw [bind, run, run]
    generalize channel.exchange ⟨operation, args, channel.service⟩ script = first
    have hrest := ih first.result first.left
    generalize (go first.result).run channel first.left = r at hrest ⊢
    obtain ⟨made, results, calls, outcome, left⟩ := r
    rw [hrest]
    cases outcome with
    | error failure => rfl
    | ok a => simp only [Run.andThen, List.cons_append, List.append_assoc]

theorem run_map (f : α → β) (p : Plan α) (script : Script) :
    (p.map f).run channel script =
      let r := p.run channel script
      ⟨r.made, r.results, r.calls, r.outcome.map f, r.left⟩ := by
  rw [map, run_bind]
  generalize p.run channel script = r
  obtain ⟨made, results, calls, outcome, left⟩ := r
  cases outcome with
  | error failure => rfl
  | ok a => simp [Run.andThen, run, Except.map]

theorem results_run (p : Plan α) (script : Script) :
    (p.run channel script).results = channel.results (p.run channel script).made script := by
  induction p generalizing script with
  | done outcome => rfl
  | call operation args go ih => simp only [run, Channel.results, ih]

theorem calls_run (p : Plan α) (script : Script) :
    (p.run channel script).calls = (p.run channel script).made.filter channel.receives := by
  induction p generalizing script with
  | done outcome => rfl
  | call operation args go ih =>
    simp only [run]
    rw [Channel.calls_exchange, ih, ← List.filter_append, List.singleton_append]

theorem left_run (p : Plan α) (script : Script) :
    (p.run channel script).left = script.drop (p.run channel script).calls.length := by
  induction p generalizing script with
  | done outcome => rfl
  | call operation args go ih =>
    simp only [run]
    rw [ih, Channel.left_exchange, List.drop_drop, List.length_append]

theorem inTurn_run (p : Plan α) (script : Script) :
    (p.run channel script).InTurn channel script where
  results := results_run channel p script
  received := calls_run channel p script
  taken := left_run channel p script
  unrefused h := by
    constructor
    · rw [calls_run, List.filter_eq_self]
      intro call hcall
      rw [Channel.receives, h call hcall, Option.isNone_none]
    · intro k hk
      rw [results_run]
      exact Channel.getElem?_results script h hk

end Plan

end QueryConsole
