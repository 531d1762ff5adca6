import QueryConsole.Proofs.Dispatch
import QueryConsole.Proofs.Value.Entry

set_option autoImplicit false

namespace QueryConsole

theorem KindInfo.ofAnswer_eq_ok_iff {answer : Record} {info : KindInfo} :
    KindInfo.ofAnswer answer = .ok info ↔
      answer.text? Key.kind = .ok info.kind ∧ answer.text? Key.detail = .ok info.detail ∧
      answer.int? Key.version = .ok info.version ∧
      answer.int? Key.tableNumber = .ok info.tableNumber ∧
      answer.text? Key.xidName = .ok info.xidName := by
  constructor
  · intro h
    simp only [ofAnswer, bind_eq_ok_iff] at h
    obtain ⟨kind, hkind, detail, hdetail, version, hversion, tableNumber, htableNumber, xidName,
      hxidName, hinfo⟩ := h
    cases hinfo
    exact ⟨hkind, hdetail, hversion, htableNumber, hxidName⟩
  · rintro ⟨hkind, hdetail, hversion, htableNumber, hxidName⟩
    simp only [ofAnswer, hkind, hdetail, hversion, htableNumber, hxidName]
    rfl

/-- Each facet that is not used is left out of the answer, has no kind, or is of its own form. -/
structure FacetsFit (answer : Record) : Prop where
  kind : ∀ v, answer.present? "kind".toList = some v → ∃ s, v = .string s
  version : ∀ v, answer.present? "version".toList = some v →
    ∃ x n, v = .number x ∧ x.toInt? = some n
  tableNumber : ∀ v, answer.present? "tableNumber".toList = some v →
    ∃ x n, v = .number x ∧ x.toInt? = some n
  xidName : ∀ v, answer.present? "xidName".toList = some v → ∃ s, v = .string s

theorem hasDetail_iff {answer : Record} {detail : Text} :
    HasDetail answer detail ↔
      answer.present? "detail".toList = some (.string detail) ∧ FacetsFit answer := by
  constructor
  · rintro ⟨info, hinfo, hdetail⟩
    obtain ⟨hkind, hentry, hversion, htableNumber, hxidName⟩ := KindInfo.ofAnswer_eq_ok_iff.mp hinfo
    rw [hdetail, Record.text?_eq_ok_iff] at hentry
    exact ⟨hentry, Record.exists_text?_iff.mp ⟨_, hkind⟩, Record.exists_int?_iff.mp ⟨_, hversion⟩,
      Record.exists_int?_iff.mp ⟨_, htableNumber⟩, Record.exists_text?_iff.mp ⟨_, hxidName⟩⟩
  · rintro ⟨hentry, hfit⟩
    obtain ⟨kind, hkind⟩ := Record.exists_text?_iff.mpr hfit.kind
    obtain ⟨version, hversion⟩ := Record.exists_int?_iff.mpr hfit.version
    obtain ⟨tableNumber, htableNumber⟩ := Record.exists_int?_iff.mpr hfit.tableNumber
    obtain ⟨xidName, hxidName⟩ := Record.exists_text?_iff.mpr hfit.xidName
    have hdetail : answer.text? Key.detail = .ok (some detail) := Record.text?_eq_ok_iff.mpr hentry
    exact ⟨⟨kind, some detail, version, tableNumber, xidName⟩,
      KindInfo.ofAnswer_eq_ok_iff.mpr ⟨hkind, hdetail, hversion, htableNumber, hxidName⟩, rfl⟩

theorem exists_fault_of_not_fit {answer : Record} {detail : Text}
    (hdetail : answer.present? "detail".toList = some (.string detail))
    (hfit : ¬ FacetsFit answer) : ∃ fault, KindInfo.ofAnswer answer = .error fault := by
  cases hinfo : KindInfo.ofAnswer answer with
  | error fault => exact ⟨fault, rfl⟩
  | ok info =>
    have hentry := (KindInfo.ofAnswer_eq_ok_iff.mp hinfo).2.1
    rw [Record.text?_eq_ok_iff] at hentry
    have hsame : info.detail = some detail := by
      have hsome : info.detail.map Value.string = some (.string detail) := hentry.symm.trans hdetail
      obtain ⟨other, hother, heq⟩ := Option.map_eq_some_iff.mp hsome
      rw [hother, Value.string.inj heq]
    exact absurd (hasDetail_iff.mp ⟨info, hinfo, hsame⟩).2 hfit

section Description

variable {service : Option Text} {i : Invocation} {answer : Record} {made : List Call}
  {results : List (Except Status Record)} {outcome : Except Failure (List Output)} {detail : Text}

theorem Described.of_fit (h : Described service i.kind made results outcome)
    (hanswer : results[0]? = some (.ok answer))
    (hdetail : answer.present? "detail".toList = some (.string detail))
    (hfit : FacetsFit answer) :
    made = [detailCall service i.kind, tableCall service i.kind] ∧
      ∀ layout table, results[1]? = some (.ok layout) → Table.ofAnswer layout = .ok table →
        outcome = .ok [.detail detail, .table table] := by
  have hhas : HasDetail answer detail := hasDetail_iff.mpr ⟨hdetail, hfit⟩
  exact ⟨h.made_of_hasDetail ⟨answer, detail, hanswer, hhas⟩,
    fun _ _ hlayout htable => h.ok_of_shown hanswer hhas hlayout htable⟩

theorem Described.of_not_fit (h : Described service i.kind made results outcome)
    (hanswer : results[0]? = some (.ok answer))
    (hdetail : answer.present? "detail".toList = some (.string detail))
    (hfit : ¬ FacetsFit answer) :
    made = [detailCall service i.kind] ∧
      ∃ fault, KindInfo.ofAnswer answer = .error fault ∧
        outcome = .error (.malformed "kindInfo".toList fault) := by
  obtain ⟨fault, hfault⟩ := exists_fault_of_not_fit hdetail hfit
  have hnone : ∀ other, some (.ok other) = some (Except.ok answer : Except Status Record) →
      ∀ d, ¬ HasDetail other d := by
    intro other hother d hhas
    rw [Option.some.injEq, Except.ok.injEq] at hother
    exact hfit (hasDetail_iff.mp (hother ▸ hhas)).2
  cases h with
  | unanswered => simp at hanswer
  | undetailed hfault' =>
    simp only [List.getElem?_cons_zero, Option.some.injEq, Except.ok.injEq] at hanswer
    subst hanswer
    exact ⟨rfl, fault, hfault, by rw [hfault'.unique (.form hfault)]⟩
  | tableless hhas => exact absurd hhas (hnone _ hanswer _)
  | unformed hhas => exact absurd hhas (hnone _ hanswer _)
  | shown hhas => exact absurd hhas (hnone _ hanswer _)

end Description

namespace Plan

variable (channel : Channel) (kind : Text) (script : Script)

def detailExchange : Exchange := channel.exchange (detailCall channel.service kind) script

def tableExchange : Exchange :=
  channel.exchange (tableCall channel.service kind) (detailExchange channel kind script).left

theorem getElem?_results_zero :
    ((describe kind).run channel script).results[0]? =
      some (detailExchange channel kind script).result := by
  rw [describe, run_bind, run_kindInfo]
  simp only [Run.andThen]
  split <;> rfl

theorem getElem?_results_one
    (h : ((describe kind).run channel script).made =
      [detailCall channel.service kind, tableCall channel.service kind]) :
    ((describe kind).run channel script).results[1]? =
      some (tableExchange channel kind script).result := by
  rw [results_run, h]
  rfl

variable {channel kind script}

/-- A description whose first answer has a detail goes on to the table exactly if the facets that
were not asked for fit, whatever other entries there are. If one of them does not, the description
ends there, though nothing of it would be shown. -/
theorem run_describe_of_detail {i : Invocation} {answer : Record} {detail : Text}
    (hsql : i.sql = []) (hanswer : (detailExchange channel i.kind script).result = .ok answer)
    (hdetail : answer.present? "detail".toList = some (.string detail)) :
    (FacetsFit answer →
      ((dispatch i).run channel script).made =
        [detailCall channel.service i.kind, tableCall channel.service i.kind] ∧
      ∀ layout table, (tableExchange channel i.kind script).result = .ok layout →
        Table.ofAnswer layout = .ok table →
        ((dispatch i).run channel script).outcome = .ok [.detail detail, .table table]) ∧
    (¬ FacetsFit answer →
      ((dispatch i).run channel script).made = [detailCall channel.service i.kind] ∧
      ∃ fault, KindInfo.ofAnswer answer = .error fault ∧
        ((dispatch i).run channel script).outcome =
          .error (.malformed "kindInfo".toList fault)) := by
  have hplan : dispatch i = describe i.kind := by
    rw [dispatch, Invocation.mode, if_pos hsql]
  have hrun := described_run channel i.kind script
  have hfirst := getElem?_results_zero channel i.kind script
  rw [hanswer] at hfirst
  rw [hplan]
  refine ⟨fun hfit => ?_, hrun.of_not_fit hfirst hdetail⟩
  obtain ⟨hmade, hshown⟩ := hrun.of_fit hfirst hdetail hfit
  refine ⟨hmade, fun layout table hlayout => hshown layout table ?_⟩
  rw [getElem?_results_one channel i.kind script hmade, hlayout]

theorem run_describe_of_owner :
    Invocation.sql ⟨"users".toList, 0, [], []⟩ = [] ∧
    ((dispatch ⟨"users".toList, 0, [], []⟩).run .direct
      [.answer [("detail".toList, .string "Users".toList), ("owner".toList, .list [.null]),
          ("version".toList, .int 4)],
        .answer [("fields".toList, .list [.string "Field".toList]),
          ("rows".toList, .list [.list [.string "id".toList]])]]).outcome =
      .ok [.detail "Users".toList, .table ⟨["Field".toList], [["id".toList]]⟩] := by
  refine ⟨rfl, ((run_describe_of_detail rfl rfl rfl).1 ?_).2 _ _ rfl rfl⟩
  refine ⟨nofun, fun v hv => ?_, nofun, nofun⟩
  exact ⟨Double.ofInt 4, 4, (Option.some.inj hv).symm, by decide +kernel⟩

theorem run_describe_of_null_version :
    ((dispatch ⟨"users".toList, 0, [], []⟩).run .direct
      [.answer [("detail".toList, .string "Users".toList), ("version".toList, .null)],
        .answer [("fields".toList, .list [.string "Field".toList]),
          ("rows".toList, .list [.list [.string "id".toList]])]]).calls =
      [detailCall none "users".toList] ∧
    ((dispatch ⟨"users".toList, 0, [], []⟩).run .direct
      [.answer [("detail".toList, .string "Users".toList), ("version".toList, .null)],
        .answer [("fields".toList, .list [.string "Field".toList]),
          ("rows".toList, .list [.list [.string "id".toList]])]]).outcome =
      .error (.malformed "kindInfo".toList (.mismatch "version".toList .integer)) :=
  ⟨rfl, rfl⟩

end Plan

end QueryConsole
