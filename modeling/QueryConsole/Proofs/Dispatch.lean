import QueryConsole.Dispatch
import QueryConsole.Proofs.Plan

set_option autoImplicit false

namespace QueryConsole

section Calls

variable (service : Option Text)

def singleCall (i : Invocation) : Call :=
  ⟨"sQuery".toList,
    [("convert".toList, .bool true), ("hintId".toList, .int i.hintId),
      ("kind".toList, .string i.kind), ("sql".toList, .string i.sql)], service⟩

def batchCall (i : Invocation) : Call :=
  ⟨"mQuery".toList,
    [("convert".toList, .bool true), ("hintId".toList, .int i.hintId),
      ("kind".toList, .string i.kind),
      ("sqls".toList, .list (.string i.sql :: i.extraSqls.map .string))], service⟩

def kindInfoCall (kind : Text) (facets : List Text) : Call :=
  ⟨"kindInfo".toList,
    [("facets".toList, .list (facets.map .string)), ("kind".toList, .string kind)], service⟩

def detailCall (kind : Text) : Call := kindInfoCall service kind ["detail".toList]

def tableCall (kind : Text) : Call :=
  ⟨"sQuery".toList,
    [("hintId".toList, .int 1), ("kind".toList, .string kind),
      ("sql".toList, .string ("desc ".toList ++ kind))], service⟩

end Calls

def HasDetail (answer : Record) (detail : Text) : Prop :=
  ∃ info, KindInfo.ofAnswer answer = .ok info ∧ info.detail = some detail

inductive AnswerFault : Nat → Record → EntryFault → Prop where
  | form {answer : Record} {fault : EntryFault} :
      KindInfo.ofAnswer answer = .error fault → AnswerFault 0 answer fault
  | detail {answer : Record} {info : KindInfo} :
      KindInfo.ofAnswer answer = .ok info → info.detail = none →
      AnswerFault 0 answer (.missing "detail".toList)
  | table {answer : Record} {fault : EntryFault} :
      Table.ofAnswer answer = .error fault → AnswerFault 1 answer fault

/-- The ways in which a description ends, with the calls that are made and their results. -/
inductive Described (service : Option Text) (kind : Text) :
    List Call → List (Except Status Record) → Except Failure (List Output) → Prop where
  | unanswered {s : Status} :
      Described service kind [detailCall service kind] [.error s] (.error (.remote s))
  | undetailed {answer : Record} {fault : EntryFault} :
      AnswerFault 0 answer fault →
      Described service kind [detailCall service kind] [.ok answer]
        (.error (.malformed "kindInfo".toList fault))
  | tableless {answer : Record} {detail : Text} {s : Status} :
      HasDetail answer detail →
      Described service kind [detailCall service kind, tableCall service kind]
        [.ok answer, .error s] (.error (.remote s))
  | unformed {answer layout : Record} {detail : Text} {fault : EntryFault} :
      HasDetail answer detail → AnswerFault 1 layout fault →
      Described service kind [detailCall service kind, tableCall service kind]
        [.ok answer, .ok layout] (.error (.malformed "sQuery".toList fault))
  | shown {answer layout : Record} {detail : Text} {table : Table} :
      HasDetail answer detail → Table.ofAnswer layout = .ok table →
      Described service kind [detailCall service kind, tableCall service kind]
        [.ok answer, .ok layout] (.ok [.detail detail, .table table])

namespace Plan

variable (channel : Channel)

theorem run_query (operation : Text) (args : Record) (script : Script) :
    (query operation args).run channel script =
      let call : Call := ⟨operation, args, channel.service⟩
      let only := channel.exchange call script
      ⟨[call], [only.result], only.calls,
        (only.result.mapError .remote).map fun answer => [.generic (.record answer)],
        only.left⟩ := by
  rw [query, run_map, run_invoke]

theorem run_kindInfo (kind : Text) (facets : List Text) (script : Script) :
    (kindInfo kind facets).run channel script =
      let call := kindInfoCall channel.service kind facets
      let only := channel.exchange call script
      ⟨[call], [only.result], only.calls,
        (only.result.mapError .remote).bind fun answer =>
          (KindInfo.ofAnswer answer).mapError (.malformed Operation.kindInfo),
        only.left⟩ := by
  have hcall : kindInfoCall channel.service kind facets =
      ⟨Operation.kindInfo, Request.kindInfo kind facets, channel.service⟩ := rfl
  rw [kindInfo, run_bind, run_invoke, hcall]
  simp only
  cases (channel.exchange ⟨Operation.kindInfo, Request.kindInfo kind facets, channel.service⟩
    script).result with
  | error s => rfl
  | ok answer => simp [Run.andThen, decoded, run, Except.bind]

theorem described_run (kind : Text) (script : Script) :
    Described channel.service kind ((describe kind).run channel script).made
      ((describe kind).run channel script).results
      ((describe kind).run channel script).outcome := by
  rw [describe, run_bind, run_kindInfo]
  simp only
  generalize channel.exchange (kindInfoCall channel.service kind [Key.detail]) script = first
  cases first.result with
  | error s => exact .unanswered
  | ok answer =>
    cases hinfo : KindInfo.ofAnswer answer with
    | error fault =>
      simp only [mapError_ok, mapError_error, Except.bind, hinfo]
      exact .undetailed (.form hinfo)
    | ok info =>
      simp only [mapError_ok, Except.bind, hinfo, Run.andThen]
      cases hdetail : info.detail with
      | none => exact .undetailed (.detail hinfo hdetail)
      | some detail =>
        have hhas : HasDetail answer detail := ⟨info, hinfo, hdetail⟩
        simp only
        rw [run_bind, run_invoke]
        simp only
        cases (channel.exchange
          ⟨Operation.singleQuery, Request.describe kind, channel.service⟩ first.left).result with
        | error s => exact .tableless hhas
        | ok layout =>
          simp only [mapError_ok, Run.andThen]
          rw [run_map]
          cases htable : Table.ofAnswer layout with
          | error fault => exact .unformed hhas (.table htable)
          | ok table => exact .shown hhas htable

end Plan

/-- What is wrong with the last of the calls: it fails, or its answer to a description is faulty. -/
def LastFault (i : Invocation) (made : List Call) (results : List (Except Status Record))
    (failure : Failure) : Prop :=
  ∃ k last, made.length = k + 1 ∧ made[k]? = some last ∧
    ((∃ s, results[k]? = some (.error s) ∧ failure = .remote s) ∨
      ∃ answer fault, i.sql = [] ∧ results[k]? = some (.ok answer) ∧ AnswerFault k answer fault ∧
        failure = .malformed last.operation fault)

/-- What the run of an invocation makes of the replies: which calls are made, when there is
something to show, and that otherwise the last call decides the failure. -/
structure Dispatched (channel : Channel) (i : Invocation) (script : Script)
    (r : Run (List Output)) : Prop extends r.InTurn channel script where
  single : i.sql ≠ [] → i.extraSqls = [] → r.made = [singleCall channel.service i]
  batch : i.sql ≠ [] → i.extraSqls ≠ [] → r.made = [batchCall channel.service i]
  describe : i.sql = [] →
    (∃ answer detail, r.results[0]? = some (.ok answer) ∧ HasDetail answer detail) →
    r.made = [detailCall channel.service i.kind, tableCall channel.service i.kind]
  detailOnly : i.sql = [] →
    (¬ ∃ answer detail, r.results[0]? = some (.ok answer) ∧ HasDetail answer detail) →
    r.made = [detailCall channel.service i.kind]
  distinct : (r.made.map Call.operation).Nodup
  succeeds : (∃ outputs, r.outcome = .ok outputs) ↔
    (∀ result ∈ r.results, ∃ answer, result = .ok answer) ∧
    (i.sql = [] →
      (∀ answer, r.results[0]? = some (.ok answer) → ∃ detail, HasDetail answer detail) ∧
      ∀ layout, r.results[1]? = some (.ok layout) → ∃ table, Table.ofAnswer layout = .ok table)
  generic : i.sql ≠ [] → ∀ outputs, r.outcome = .ok outputs ↔
    ∃ answer, r.results[0]? = some (.ok answer) ∧ outputs = [.generic (.record answer)]
  described : i.sql = [] → ∀ outputs, r.outcome = .ok outputs ↔
    ∃ answer detail layout table,
      r.results[0]? = some (.ok answer) ∧ HasDetail answer detail ∧
      r.results[1]? = some (.ok layout) ∧ Table.ofAnswer layout = .ok table ∧
      outputs = [.detail detail, .table table]
  fails : ∀ failure, r.outcome = .error failure ↔ LastFault i r.made r.results failure

theorem HasDetail.unique {answer : Record} {d e : Text} (hd : HasDetail answer d)
    (he : HasDetail answer e) : d = e := by
  obtain ⟨info, hinfo, hdetail⟩ := hd
  obtain ⟨info', hinfo', hdetail'⟩ := he
  rw [hinfo, Except.ok.injEq] at hinfo'
  rw [← hinfo', hdetail, Option.some.injEq] at hdetail'
  exact hdetail'

theorem AnswerFault.not_hasDetail {answer : Record} {fault : EntryFault}
    (h : AnswerFault 0 answer fault) (detail : Text) : ¬ HasDetail answer detail := by
  intro hhas
  obtain ⟨info, hinfo, hdetail⟩ := hhas
  cases h with
  | form hform => simp [hinfo] at hform
  | detail hinfo' hnone =>
    rw [hinfo, Except.ok.injEq] at hinfo'
    simp [← hinfo', hdetail] at hnone

theorem AnswerFault.not_table {layout : Record} {fault : EntryFault}
    (h : AnswerFault 1 layout fault) (table : Table) : Table.ofAnswer layout ≠ .ok table := by
  cases h with
  | table hfault => simp [hfault]

theorem AnswerFault.unique {k : Nat} {answer : Record} {f g : EntryFault}
    (hf : AnswerFault k answer f) (hg : AnswerFault k answer g) : f = g := by
  cases hf with
  | form hf =>
    cases hg with
    | form hg => simpa [hf] using hg
    | detail hg hnone => simp [hf] at hg
  | detail hf hnone =>
    cases hg with
    | form hg => simp [hf] at hg
    | detail hg hnone => rfl
  | table hf =>
    cases hg with
    | table hg => simpa [hf] using hg

theorem LastFault.unique {i : Invocation} {made : List Call}
    {results : List (Except Status Record)} {f g : Failure} (hf : LastFault i made results f)
    (hg : LastFault i made results g) : f = g := by
  obtain ⟨k, last, hlength, hlast, hf⟩ := hf
  obtain ⟨k', last', hlength', hlast', hg⟩ := hg
  have hk : k = k' := by omega
  subst hk
  have hsame : last = last' := by
    rw [hlast, Option.some.injEq] at hlast'
    exact hlast'
  subst hsame
  obtain ⟨s, hs, hf⟩ | ⟨answer, fault, -, hanswer, hfault, hf⟩ := hf
  · obtain ⟨s', hs', hg⟩ | ⟨answer, fault, -, hanswer, -, -⟩ := hg
    · rw [hs, Option.some.injEq, Except.error.injEq] at hs'
      rw [hf, hg, hs']
    · simp [hs] at hanswer
  · obtain ⟨s, hs, -⟩ | ⟨answer', fault', -, hanswer', hfault', hg⟩ := hg
    · simp [hs] at hanswer
    · rw [hanswer, Option.some.injEq, Except.ok.injEq] at hanswer'
      subst hanswer'
      rw [hf, hg, hfault.unique hfault']

namespace Described

variable {service : Option Text} {i : Invocation} {made : List Call}
  {results : List (Except Status Record)} {outcome : Except Failure (List Output)}

theorem lastFault {failure : Failure} (hsql : i.sql = [])
    (h : Described service i.kind made results (.error failure)) :
    LastFault i made results failure := by
  cases h with
  | unanswered => exact ⟨0, _, rfl, rfl, .inl ⟨_, rfl, rfl⟩⟩
  | undetailed hfault => exact ⟨0, _, rfl, rfl, .inr ⟨_, _, hsql, rfl, hfault, rfl⟩⟩
  | tableless => exact ⟨1, _, rfl, rfl, .inl ⟨_, rfl, rfl⟩⟩
  | unformed _ hfault => exact ⟨1, _, rfl, rfl, .inr ⟨_, _, hsql, rfl, hfault, rfl⟩⟩

theorem not_lastFault {outputs : List Output}
    (h : Described service i.kind made results (.ok outputs)) (failure : Failure) :
    ¬ LastFault i made results failure := by
  intro hlast
  cases h with
  | shown _ htable =>
    obtain ⟨k, last, hlength, -, hwhy⟩ := hlast
    have hk : k = 1 := by
      simp only [List.length_cons, List.length_nil] at hlength
      omega
    subst hk
    obtain ⟨s, hs, -⟩ | ⟨layout, fault, -, hlayout, hfault, -⟩ := hwhy
    · simp at hs
    · simp only [List.getElem?_cons_succ, List.getElem?_cons_zero, Option.some.injEq,
        Except.ok.injEq] at hlayout
      subst hlayout
      exact hfault.not_table _ htable

theorem made_of_hasDetail (h : Described service i.kind made results outcome)
    (hdetail : ∃ answer detail, results[0]? = some (.ok answer) ∧ HasDetail answer detail) :
    made = [detailCall service i.kind, tableCall service i.kind] := by
  obtain ⟨answer, detail, hanswer, hhas⟩ := hdetail
  cases h with
  | unanswered => simp at hanswer
  | undetailed hfault =>
    simp only [List.getElem?_cons_zero, Option.some.injEq, Except.ok.injEq] at hanswer
    subst hanswer
    exact absurd hhas (hfault.not_hasDetail detail)
  | tableless => rfl
  | unformed => rfl
  | shown => rfl

theorem made_of_not_hasDetail (h : Described service i.kind made results outcome)
    (hnone : ¬ ∃ answer detail, results[0]? = some (.ok answer) ∧ HasDetail answer detail) :
    made = [detailCall service i.kind] := by
  cases h with
  | unanswered => rfl
  | undetailed => rfl
  | tableless hhas => exact absurd ⟨_, _, rfl, hhas⟩ hnone
  | unformed hhas => exact absurd ⟨_, _, rfl, hhas⟩ hnone
  | shown hhas => exact absurd ⟨_, _, rfl, hhas⟩ hnone

theorem distinct (h : Described service i.kind made results outcome) :
    (made.map Call.operation).Nodup := by
  have htwo : ["kindInfo".toList, "sQuery".toList].Nodup := by decide
  have hone : ["kindInfo".toList].Nodup := by decide
  cases h with
  | unanswered => exact hone
  | undetailed => exact hone
  | tableless => exact htwo
  | unformed => exact htwo
  | shown => exact htwo

theorem length_made_le {kind : Text} (h : Described service kind made results outcome) :
    made.length ≤ 2 := by
  cases h with
  | unanswered => exact Nat.le_succ 1
  | undetailed => exact Nat.le_succ 1
  | tableless => exact Nat.le_refl 2
  | unformed => exact Nat.le_refl 2
  | shown => exact Nat.le_refl 2

theorem shown_of_ok {outputs : List Output}
    (h : Described service i.kind made results (.ok outputs)) :
    ∃ answer detail layout table, results = [.ok answer, .ok layout] ∧ HasDetail answer detail ∧
      Table.ofAnswer layout = .ok table ∧ outputs = [.detail detail, .table table] := by
  cases h with
  | shown hhas htable => exact ⟨_, _, _, _, rfl, hhas, htable, rfl⟩

theorem ok_of_shown (h : Described service i.kind made results outcome)
    {answer layout : Record} {detail : Text} {table : Table}
    (hanswer : results[0]? = some (.ok answer)) (hhas : HasDetail answer detail)
    (hlayout : results[1]? = some (.ok layout)) (htable : Table.ofAnswer layout = .ok table) :
    outcome = .ok [.detail detail, .table table] := by
  cases h with
  | unanswered => simp at hanswer
  | undetailed => simp at hlayout
  | tableless => simp at hlayout
  | unformed _ hfault =>
    simp only [List.getElem?_cons_succ, List.getElem?_cons_zero, Option.some.injEq,
      Except.ok.injEq] at hlayout
    subst hlayout
    exact absurd htable (hfault.not_table table)
  | shown hhas' htable' =>
    simp only [List.getElem?_cons_succ, List.getElem?_cons_zero, Option.some.injEq,
      Except.ok.injEq] at hanswer hlayout
    subst hanswer hlayout
    rw [htable, Except.ok.injEq] at htable'
    rw [hhas.unique hhas', htable']

theorem exists_ok (h : Described service i.kind made results outcome)
    (hanswered : ∀ result ∈ results, ∃ answer, result = .ok answer)
    (hdetails : ∀ answer, results[0]? = some (.ok answer) → ∃ detail, HasDetail answer detail)
    (htables : ∀ layout, results[1]? = some (.ok layout) →
      ∃ table, Table.ofAnswer layout = .ok table) :
    ∃ outputs, outcome = .ok outputs := by
  cases h with
  | unanswered =>
    obtain ⟨answer, hanswer⟩ := hanswered _ List.mem_cons_self
    simp at hanswer
  | undetailed hfault =>
    obtain ⟨detail, hhas⟩ := hdetails _ rfl
    exact absurd hhas (hfault.not_hasDetail detail)
  | tableless =>
    obtain ⟨layout, hlayout⟩ := hanswered _ (List.mem_cons_of_mem _ List.mem_cons_self)
    simp at hlayout
  | unformed _ hfault =>
    obtain ⟨table, htable⟩ := htables _ rfl
    exact absurd htable (hfault.not_table table)
  | shown => exact ⟨_, rfl⟩

theorem exists_ok_iff (h : Described service i.kind made results outcome) :
    (∃ outputs, outcome = .ok outputs) ↔
      (∀ result ∈ results, ∃ answer, result = .ok answer) ∧
      (∀ answer, results[0]? = some (.ok answer) → ∃ detail, HasDetail answer detail) ∧
      ∀ layout, results[1]? = some (.ok layout) → ∃ table, Table.ofAnswer layout = .ok table := by
  constructor
  · intro hok
    obtain ⟨outputs, houtputs⟩ := hok
    subst houtputs
    obtain ⟨answer, detail, layout, table, hresults, hhas, htable, -⟩ := h.shown_of_ok
    subst hresults
    refine ⟨?_, ?_, ?_⟩
    · simp
    · intro a ha
      simp only [List.getElem?_cons_zero, Option.some.injEq, Except.ok.injEq] at ha
      exact ⟨detail, ha ▸ hhas⟩
    · intro l hl
      simp only [List.getElem?_cons_succ, List.getElem?_cons_zero, Option.some.injEq,
        Except.ok.injEq] at hl
      exact ⟨table, hl ▸ htable⟩
  · intro hall
    exact h.exists_ok hall.1 hall.2.1 hall.2.2

theorem ok_iff (h : Described service i.kind made results outcome) (outputs : List Output) :
    outcome = .ok outputs ↔
      ∃ answer detail layout table,
        results[0]? = some (.ok answer) ∧ HasDetail answer detail ∧
        results[1]? = some (.ok layout) ∧ Table.ofAnswer layout = .ok table ∧
        outputs = [.detail detail, .table table] := by
  constructor
  · intro houtcome
    subst houtcome
    obtain ⟨answer, detail, layout, table, hresults, hhas, htable, houtputs⟩ := h.shown_of_ok
    subst hresults
    exact ⟨answer, detail, layout, table, rfl, hhas, rfl, htable, houtputs⟩
  · intro hshown
    obtain ⟨answer, detail, layout, table, hanswer, hhas, hlayout, htable, houtputs⟩ := hshown
    rw [houtputs]
    exact h.ok_of_shown hanswer hhas hlayout htable

theorem error_iff (hsql : i.sql = []) (h : Described service i.kind made results outcome)
    (failure : Failure) : outcome = .error failure ↔ LastFault i made results failure := by
  constructor
  · intro houtcome
    subst houtcome
    exact h.lastFault hsql
  · intro hlast
    cases outcome with
    | ok outputs => exact absurd hlast (h.not_lastFault failure)
    | error other => rw [hlast.unique (h.lastFault hsql)]

end Described

section Dispatched

variable {channel : Channel} {i : Invocation} {script : Script} {r : Run (List Output)}

theorem Described.dispatched (hsql : i.sql = []) (hturn : r.InTurn channel script)
    (h : Described channel.service i.kind r.made r.results r.outcome) :
    Dispatched channel i script r where
  toInTurn := hturn
  single hne := absurd hsql hne
  batch hne := absurd hsql hne
  describe _ hdetail := h.made_of_hasDetail hdetail
  detailOnly _ hnone := h.made_of_not_hasDetail hnone
  distinct := h.distinct
  succeeds := by simp only [h.exists_ok_iff, hsql, true_imp_iff]
  generic hne := absurd hsql hne
  described _ outputs := h.ok_iff outputs
  fails failure := h.error_iff hsql failure

theorem lastFault_query_iff {call : Call} {result : Except Status Record} {failure : Failure}
    (hsql : i.sql ≠ []) :
    LastFault i [call] [result] failure ↔ ∃ s, result = .error s ∧ failure = .remote s := by
  constructor
  · intro hlast
    obtain ⟨k, last, hlength, -, hwhy⟩ := hlast
    have hzero : k = 0 := by
      rw [List.length_singleton] at hlength
      omega
    subst hzero
    obtain ⟨s, hs, hfailure⟩ | ⟨_, _, hempty, -⟩ := hwhy
    · exact ⟨s, Option.some.inj hs, hfailure⟩
    · exact absurd hempty hsql
  · intro h
    obtain ⟨s, hs, hfailure⟩ := h
    exact ⟨0, call, rfl, rfl, .inl ⟨s, congrArg some hs, hfailure⟩⟩

theorem dispatched_query {call : Call} {result : Except Status Record} (hsql : i.sql ≠ [])
    (hsingle : i.extraSqls = [] → call = singleCall channel.service i)
    (hbatch : i.extraSqls ≠ [] → call = batchCall channel.service i)
    (hturn : r.InTurn channel script) (hmade : r.made = [call]) (hresults : r.results = [result])
    (houtcome : r.outcome = (result.mapError .remote).map fun answer =>
      [.generic (.record answer)]) :
    Dispatched channel i script r where
  toInTurn := hturn
  single _ hextra := by rw [hmade, hsingle hextra]
  batch _ hextra := by rw [hmade, hbatch hextra]
  describe hempty := absurd hempty hsql
  detailOnly hempty := absurd hempty hsql
  distinct := by
    rw [hmade]
    exact List.nodup_cons.mpr ⟨List.not_mem_nil, List.nodup_nil⟩
  succeeds := by
    cases result with
    | error s => simp [houtcome, hresults, Except.map]
    | ok answer => simp [houtcome, hresults, hsql, Except.map]
  generic _ outputs := by
    cases result with
    | error s => simp [houtcome, hresults, Except.map]
    | ok answer => simp [houtcome, hresults, Except.map, eq_comm]
  described hempty := absurd hempty hsql
  fails failure := by
    rw [hmade, hresults, lastFault_query_iff hsql, houtcome]
    cases result with
    | error s => simp [Except.map, eq_comm]
    | ok answer => simp [Except.map]

end Dispatched

namespace Plan

/-- The calls of an invocation are those of its form, each made once and in order, and what they
come to decides what the invocation comes to. -/
theorem run_dispatch (channel : Channel) (i : Invocation) (script : Script) :
    Dispatched channel i script ((dispatch i).run channel script) := by
  have hturn := inTurn_run channel (dispatch i) script
  by_cases hsql : i.sql = []
  · have hplan : dispatch i = describe i.kind := by
      rw [dispatch, Invocation.mode, if_pos hsql]
    rw [hplan] at hturn ⊢
    exact (described_run channel i.kind script).dispatched hsql hturn
  · by_cases hextra : i.extraSqls = []
    · have hplan : dispatch i =
          query Operation.singleQuery (Request.single i.kind i.hintId i.sql) := by
        rw [dispatch, Invocation.mode, if_neg hsql, if_pos hextra]
      rw [hplan, run_query] at hturn ⊢
      exact dispatched_query hsql (fun _ => rfl) (fun hne => absurd hextra hne) hturn rfl rfl rfl
    · have hplan : dispatch i =
          query Operation.multiQuery (Request.batch i.kind i.hintId (i.sql :: i.extraSqls)) := by
        rw [dispatch, Invocation.mode, if_neg hsql, if_neg hextra]
      rw [hplan, run_query] at hturn ⊢
      exact dispatched_query hsql (fun hnil => absurd hnil hextra) (fun _ => rfl) hturn rfl rfl rfl

end Plan

end QueryConsole
