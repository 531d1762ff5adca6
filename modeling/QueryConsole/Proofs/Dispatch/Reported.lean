import QueryConsole.Proofs.Dispatch.Facets
import QueryConsole.Proofs.Double.Value

set_option autoImplicit false

namespace QueryConsole

namespace Record

inductive ReportsText (r : Record) (key : Text) : Option Text → Prop where
  | lacking : r.Lacks key → ReportsText r key none
  | text {s : Text} : r.get? key = some (.string s) → ReportsText r key (some s)

/-- An integer out of the range of ids counts as the nearest end of that range. -/
inductive ReportsInteger (r : Record) (key : Text) : Option Int64 → Prop where
  | lacking : r.Lacks key → ReportsInteger r key none
  | number {x : Double} {n : ℤ} {m : Int64} :
      r.get? key = some (.number x) → x.isFinite = true → x.toRat = n →
      m.toInt = max (-9223372036854775808) (min 9223372036854775807 n) →
      ReportsInteger r key (some m)

inductive Fits (r : Record) : Text × Expected → Prop where
  | text {key : Text} {facet : Option Text} : r.ReportsText key facet → Fits r (key, .text)
  | integer {key : Text} {facet : Option Int64} :
      r.ReportsInteger key facet → Fits r (key, .integer)

/-- The fault of the first entry that does not fit. -/
inductive FirstFault (r : Record) : List (Text × Expected) → EntryFault → Prop where
  | here {e : Text × Expected} {forms : List (Text × Expected)} :
      ¬ r.Fits e → FirstFault r (e :: forms) (.mismatch e.1 e.2)
  | later {e : Text × Expected} {forms : List (Text × Expected)} {fault : EntryFault} :
      r.Fits e → FirstFault r forms fault → FirstFault r (e :: forms) fault

variable {r : Record} {key : Text}

theorem text?_eq_ok_iff_reports {facet : Option Text} :
    r.text? key = .ok facet ↔ r.ReportsText key facet := by
  rw [text?_eq_ok_iff]
  constructor
  · intro h
    cases facet with
    | none => exact .lacking (present?_eq_none_iff.mp h)
    | some s => exact .text (present?_eq_some_iff.mp h).1
  · intro h
    cases h with
    | lacking hlacks => exact present?_eq_none_iff.mpr hlacks
    | text hget => exact present?_eq_some_iff.mpr ⟨hget, nofun⟩

theorem toInt_ofInt_clamp (n : ℤ) :
    (Int64.ofInt (Bounds.id.clamp n)).toInt =
      max (-9223372036854775808) (min 9223372036854775807 n) := by
  simp only [Bounds.clamp, Bounds.id]
  rw [Int64.toInt_ofInt_of_le (by omega) (by omega)]

theorem int?_eq_ok_iff_reports {facet : Option Int64} :
    r.int? key = .ok facet ↔ r.ReportsInteger key facet := by
  rw [int?_eq_ok_iff]
  constructor
  · rintro (⟨hnone, rfl⟩ | ⟨x, n, hx, hn, rfl⟩)
    · exact .lacking (present?_eq_none_iff.mp hnone)
    · obtain ⟨hfin, hvalue⟩ := Double.toInt?_eq_some_iff.mp hn
      exact .number (present?_eq_some_iff.mp hx).1 hfin hvalue (toInt_ofInt_clamp n)
  · intro h
    cases h with
    | lacking hlacks => exact .inl ⟨present?_eq_none_iff.mpr hlacks, rfl⟩
    | @number x n m hget hfin hvalue hm =>
      have hclamp : m = Int64.ofInt (Bounds.id.clamp n) :=
        Int64.toInt_inj.mp (hm.trans (toInt_ofInt_clamp n).symm)
      exact .inr ⟨x, n, present?_eq_some_iff.mpr ⟨hget, nofun⟩,
        Double.toInt?_eq_some_iff.mpr ⟨hfin, hvalue⟩, by rw [hclamp]⟩

theorem fits_text_iff : r.Fits (key, .text) ↔ ∃ facet, r.text? key = .ok facet := by
  simp only [text?_eq_ok_iff_reports]
  constructor
  · intro h
    cases h with
    | text h => exact ⟨_, h⟩
  · rintro ⟨facet, h⟩
    exact .text h

theorem fits_integer_iff : r.Fits (key, .integer) ↔ ∃ facet, r.int? key = .ok facet := by
  simp only [int?_eq_ok_iff_reports]
  constructor
  · intro h
    cases h with
    | integer h => exact ⟨_, h⟩
  · rintro ⟨facet, h⟩
    exact .integer h

theorem text?_eq_error_iff_fits {fault : EntryFault} :
    r.text? key = .error fault ↔ ¬ r.Fits (key, .text) ∧ fault = .mismatch key .text := by
  rw [text?_eq_error_iff, fits_text_iff, not_exists]

theorem int?_eq_error_iff_fits {fault : EntryFault} :
    r.int? key = .error fault ↔ ¬ r.Fits (key, .integer) ∧ fault = .mismatch key .integer := by
  rw [int?_eq_error_iff, fits_integer_iff, not_exists]

section FirstFault

variable {e : Text × Expected} {forms : List (Text × Expected)} {fault : EntryFault}

theorem firstFault_cons_iff :
    r.FirstFault (e :: forms) fault ↔
      ¬ r.Fits e ∧ fault = .mismatch e.1 e.2 ∨ r.Fits e ∧ r.FirstFault forms fault := by
  constructor
  · intro h
    cases h with
    | here hfit => exact .inl ⟨hfit, rfl⟩
    | later hfit hrest => exact .inr ⟨hfit, hrest⟩
  · rintro (⟨hfit, rfl⟩ | ⟨hfit, hrest⟩)
    · exact .here hfit
    · exact .later hfit hrest

theorem exists_firstFault_iff :
    (∃ fault, r.FirstFault forms fault) ↔ ¬ ∀ e ∈ forms, r.Fits e := by
  induction forms with
  | nil => exact ⟨nofun, fun h => absurd nofun h⟩
  | cons e forms ih =>
    rw [List.forall_mem_cons]
    by_cases hfit : r.Fits e
    · simp [firstFault_cons_iff, hfit, ih]
    · simp [firstFault_cons_iff, hfit]

variable {α β : Type} {reading : Except EntryFault α} {next : α → Except EntryFault β}

theorem bind_eq_error_iff_firstFault
    (hfault : reading = .error fault ↔ ¬ r.Fits e ∧ fault = .mismatch e.1 e.2)
    (hfits : r.Fits e ↔ ∃ facet, reading = .ok facet)
    (hnext : ∀ facet, next facet = .error fault ↔ r.FirstFault forms fault) :
    (reading >>= next) = .error fault ↔ r.FirstFault (e :: forms) fault := by
  rw [bind_eq_error_iff, firstFault_cons_iff, hfault]
  simp only [hnext, exists_and_right, ← hfits]

theorem text?_bind_eq_error_iff {next : Option Text → Except EntryFault β}
    (hnext : ∀ facet, next facet = .error fault ↔ r.FirstFault forms fault) :
    (r.text? key >>= next) = .error fault ↔ r.FirstFault ((key, .text) :: forms) fault :=
  bind_eq_error_iff_firstFault text?_eq_error_iff_fits fits_text_iff hnext

theorem int?_bind_eq_error_iff {next : Option Int64 → Except EntryFault β}
    (hnext : ∀ facet, next facet = .error fault ↔ r.FirstFault forms fault) :
    (r.int? key >>= next) = .error fault ↔ r.FirstFault ((key, .integer) :: forms) fault :=
  bind_eq_error_iff_firstFault int?_eq_error_iff_fits fits_integer_iff hnext

end FirstFault

end Record

theorem message_mismatch (key : Text) :
    (EntryFault.mismatch key .text).message = "`".toList ++ key ++ "` is not a string".toList ∧
    (EntryFault.mismatch key .integer).message =
      "`".toList ++ key ++ "` is not an integer".toList := by
  have htext : "` is not a string".toList = "` is not ".toList ++ "a string".toList := by decide
  have hinteger : "` is not an integer".toList = "` is not ".toList ++ "an integer".toList := by
    decide
  rw [htext, hinteger, ← List.append_assoc, ← List.append_assoc]
  exact ⟨rfl, rfl⟩

namespace KindInfo

def forms : List (Text × Expected) :=
  [("kind".toList, .text), ("detail".toList, .text), ("version".toList, .integer),
    ("tableNumber".toList, .integer), ("xidName".toList, .text)]

theorem forms_eq :
    forms = [(Key.kind, .text), (Key.detail, .text), (Key.version, .integer),
      (Key.tableNumber, .integer), (Key.xidName, .text)] := rfl

structure ReportedBy (answer : Record) (info : KindInfo) : Prop where
  kind : answer.ReportsText "kind".toList info.kind
  detail : answer.ReportsText "detail".toList info.detail
  version : answer.ReportsInteger "version".toList info.version
  tableNumber : answer.ReportsInteger "tableNumber".toList info.tableNumber
  xidName : answer.ReportsText "xidName".toList info.xidName

variable {answer : Record}

theorem ofAnswer_eq_ok_iff_reportedBy {info : KindInfo} :
    ofAnswer answer = .ok info ↔ ReportedBy answer info := by
  simp only [ofAnswer_eq_ok_iff, Record.text?_eq_ok_iff_reports, Record.int?_eq_ok_iff_reports]
  constructor
  · rintro ⟨hkind, hdetail, hversion, htableNumber, hxidName⟩
    exact ⟨hkind, hdetail, hversion, htableNumber, hxidName⟩
  · intro h
    exact ⟨h.kind, h.detail, h.version, h.tableNumber, h.xidName⟩

theorem ofAnswer_eq_error_iff_firstFault {fault : EntryFault} :
    ofAnswer answer = .error fault ↔ answer.FirstFault forms fault :=
  Record.text?_bind_eq_error_iff fun _ => Record.text?_bind_eq_error_iff fun _ =>
    Record.int?_bind_eq_error_iff fun _ => Record.int?_bind_eq_error_iff fun _ =>
      Record.text?_bind_eq_error_iff fun _ => ⟨nofun, nofun⟩

theorem exists_ofAnswer_eq_ok_iff :
    (∃ info, ofAnswer answer = .ok info) ↔ ∀ e ∈ forms, answer.Fits e := by
  rw [← not_iff_not, ← Record.exists_firstFault_iff]
  simp only [← ofAnswer_eq_error_iff_firstFault]
  cases ofAnswer answer with
  | error fault => simp
  | ok info => simp

theorem ofAnswer_congr {other : Record} (h : ∀ e ∈ forms, other.get? e.1 = answer.get? e.1) :
    ofAnswer other = ofAnswer answer := by
  rw [forms_eq] at h
  simp only [List.forall_mem_cons] at h
  obtain ⟨hkind, hdetail, hversion, htableNumber, hxidName, -⟩ := h
  rw [ofAnswer, ofAnswer, Record.text?_congr hkind, Record.text?_congr hdetail,
    Record.int?_congr hversion, Record.int?_congr htableNumber, Record.text?_congr hxidName]

end KindInfo

namespace Plan

variable {channel : Channel} {script : Script} {kind : Text} {facets : List Text} {answer : Record}

theorem outcome_kindInfo
    (hanswer : (channel.exchange (kindInfoCall channel.service kind facets) script).result =
      .ok answer) :
    ((kindInfo kind facets).run channel script).outcome =
      (KindInfo.ofAnswer answer).mapError (.malformed "kindInfo".toList) := by
  rw [run_kindInfo]
  simp only [hanswer, mapError_ok]
  rfl

/-- The facets are those that the answer reports, if each entry for one fits. Otherwise the first
that does not is named with its form. Neither other entries nor what was asked for matter. -/
theorem run_kindInfo_reported
    (hanswer : (channel.exchange (kindInfoCall channel.service kind facets) script).result =
      .ok answer) :
    (∀ info, ((kindInfo kind facets).run channel script).outcome = .ok info ↔
      KindInfo.ReportedBy answer info) ∧
    ((∃ info, ((kindInfo kind facets).run channel script).outcome = .ok info) ↔
      ∀ e ∈ KindInfo.forms, answer.Fits e) ∧
    (∀ failure, ((kindInfo kind facets).run channel script).outcome = .error failure ↔
      ∃ fault, answer.FirstFault KindInfo.forms fault ∧
        failure = .malformed "kindInfo".toList fault) ∧
    (∀ key : Text,
      (EntryFault.mismatch key .text).message = "`".toList ++ key ++ "` is not a string".toList ∧
      (EntryFault.mismatch key .integer).message =
        "`".toList ++ key ++ "` is not an integer".toList) ∧
    (∀ (channel' : Channel) (script' : Script) (kind' : Text) (facets' : List Text)
      (other : Record),
      (channel'.exchange (kindInfoCall channel'.service kind' facets') script').result =
        .ok other →
      (∀ e ∈ KindInfo.forms, other.get? e.1 = answer.get? e.1) →
      ((kindInfo kind' facets').run channel' script').outcome =
        ((kindInfo kind facets).run channel script).outcome) := by
  rw [outcome_kindInfo hanswer]
  refine ⟨fun info => ?_, ?_, fun failure => ?_, fun key => ?_, ?_⟩
  · rw [mapError_eq_ok_iff, KindInfo.ofAnswer_eq_ok_iff_reportedBy]
  · simp only [mapError_eq_ok_iff, KindInfo.exists_ofAnswer_eq_ok_iff]
  · simp only [mapError_eq_error_iff, KindInfo.ofAnswer_eq_error_iff_firstFault]
  · exact message_mismatch key
  · intro channel' script' kind' facets' other hother hsame
    rw [outcome_kindInfo hother, KindInfo.ofAnswer_congr hsame]

/-- The version is 2^64, the number of the table is -0, and the kind has no kind. In the other
answer neither the version, which is 0.5, nor the name of the column fits. -/
theorem run_kindInfo_of_extremes :
    ((kindInfo "users".toList ["xidName".toList]).run .direct
      [.answer [("detail".toList, .string "Users".toList), ("kind".toList, .unset),
        ("tableNumber".toList, .number ⟨0x8000000000000000⟩),
        ("version".toList, .number ⟨0x43f0000000000000⟩)]]).outcome =
      .ok ⟨none, some "Users".toList, some 9223372036854775807, some 0, none⟩ ∧
    ((kindInfo "users".toList []).run .direct
      [.answer [("version".toList, .number ⟨0x3fe0000000000000⟩),
        ("xidName".toList, .null)]]).outcome =
      .error (.malformed "kindInfo".toList (.mismatch "version".toList .integer)) := by
  constructor
  · refine ((run_kindInfo_reported rfl).1 _).mpr
      ⟨.lacking (.inr rfl), .text rfl, ?_, ?_, .lacking (.inl rfl)⟩
    · obtain ⟨hfin, hvalue⟩ := Double.toInt?_eq_some_iff.mp
        (by decide +kernel : Double.toInt? ⟨0x43f0000000000000⟩ = some 18446744073709551616)
      exact .number rfl hfin hvalue (by decide)
    · obtain ⟨hfin, hvalue⟩ := Double.toInt?_eq_some_iff.mp
        (by decide +kernel : Double.toInt? ⟨0x8000000000000000⟩ = some 0)
      exact .number rfl hfin hvalue (by decide)
  · refine ((run_kindInfo_reported rfl).2.2.1 _).mpr ⟨_, ?_, rfl⟩
    have hfault : Record.int? [("version".toList, .number ⟨0x3fe0000000000000⟩),
        ("xidName".toList, .null)] "version".toList =
          .error (.mismatch "version".toList .integer) := by decide +kernel
    exact .later (.text (.lacking (.inl rfl))) (.later (.text (.lacking (.inl rfl)))
      (.here (Record.int?_eq_error_iff_fits.mp hfault).1))

end Plan

end QueryConsole
