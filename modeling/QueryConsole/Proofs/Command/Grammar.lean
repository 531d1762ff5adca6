import Mathlib.Data.List.Basic
import QueryConsole.Proofs.Address
import QueryConsole.Proofs.Command.Token

/-!
The grammar of the command line. The tokens in front give values to the settings, to each at most
once; what follows them, with two hyphens in between or without, are the arguments. Reading a
command line succeeds on these lines only, and finds what the grammar says.
-/

set_option autoImplicit false

namespace QueryConsole.Command

/-- The value of a setting stands in the token behind its name, which is no option, or behind an
equals sign. -/
inductive Segment (s : Setting) (value : Text) : List Text → Prop where
  | short : ¬ IsOption value → Segment s value [['-', s.shortName], value]
  | long : ¬ IsOption value → Segment s value ['-' :: '-' :: s.longName, value]
  | attached : Segment s value ['-' :: '-' :: (s.longName ++ '=' :: value)]

inductive Segments : List (Setting × Text) → List Text → Prop where
  | nil : Segments [] []
  | cons {s : Setting} {value : Text} {given : List (Setting × Text)} {tokens rest : List Text} :
      Segment s value tokens → Segments given rest →
      Segments ((s, value) :: given) (tokens ++ rest)

/-- The arguments at the end, which begin with no option unless two hyphens precede them. -/
inductive Ending (args : List Text) : List Text → Prop where
  | bare : (∀ t, args.head? = some t → ¬ IsOption t) → Ending args args
  | separated : Ending args (separator :: args)

def Setting.standard : Setting → Text
  | .endpoint => "DbMan@::12321".toList
  | .width => "80".toList

def Options.Has (o : Options) : Setting → Text → Prop
  | .endpoint, value => Address.read value = .ok o.endpoint
  | .width, value => Numeral.readWidth value = .ok o.width

/-- A command line and what it says: each setting is given at most once, and has its standard value
where it is not given. -/
inductive Line : List Text → Options → Prop where
  | mk {given : List (Setting × Text)} {front rest : List Text} {o : Options} :
      Segments given front → (given.map Prod.fst).Nodup → Ending o.args rest →
      (∀ s, o.Has s ((given.lookup s).getD s.standard)) → Line (front ++ rest) o

section Reading

variable {g g' : Given} {s : Setting} {value : Text} {ts : List Text} {o : Options}

inductive Reads : Given → List Text → Options → Prop where
  | ending {g : Given} {args rest : List Text} : Ending args rest → Reads g rest (g.options args)
  | segment {g g' : Given} {s : Setting} {value : Text} {tokens rest : List Text} {o : Options} :
      Segment s value tokens → g.set s value = .ok g' → Reads g' rest o →
      Reads g (tokens ++ rest) o

theorem set_endpoint_eq_ok_iff :
    g.set .endpoint value = .ok g' ↔
      g.endpoint = none ∧ ∃ a, Address.read value = .ok a ∧ g' = ⟨some a, g.width⟩ := by
  cases hgiven : g.endpoint with
  | some a => simp [Given.set, hgiven]
  | none =>
    cases hread : Address.read value with
    | error fault => simp [Given.set, hgiven, hread]
    | ok a => simp [Given.set, hgiven, hread, eq_comm]

theorem set_width_eq_ok_iff :
    g.set .width value = .ok g' ↔
      g.width = none ∧ ∃ w, Numeral.readWidth value = .ok w ∧ g' = ⟨g.endpoint, some w⟩ := by
  cases hgiven : g.width with
  | some w => simp [Given.set, hgiven]
  | none =>
    cases hread : Numeral.readWidth value with
    | error fault => simp [Given.set, hgiven, hread]
    | ok w => simp [Given.set, hgiven, hread, eq_comm]

theorem set_ne_ok_of_shortNames (h : ∀ c ∈ value, c ∈ shortNames) : g.set s value ≠ .ok g' := by
  intro hset
  cases s with
  | endpoint =>
    obtain ⟨-, a, hread, -⟩ := set_endpoint_eq_ok_iff.mp hset
    have hat : '@' ∉ value := fun hmem => absurd (h '@' hmem) (by decide)
    simp [Address.read, splitFirst_eq_none_iff.mpr hat] at hread
  | width =>
    obtain ⟨-, w, hread, -⟩ := set_width_eq_ok_iff.mp hset
    obtain ⟨digits, ⟨hvalue, hne, hdigits⟩, -⟩ := Numeral.readWidth_eq_ok_iff.mp hread
    obtain ⟨c, u, rfl⟩ := List.exists_cons_of_ne_nil hne
    have hnone : ∀ d ∈ shortNames, d.isDigit = false := by simp [shortNames]
    have hc : c ∈ value := by obtain rfl | rfl := hvalue <;> simp
    exact absurd (hdigits c List.mem_cons_self) (by simp [hnone c (h c hc)])

theorem parseFrom_value_eq_ok_iff :
    parseFrom g (some (s, some value)) ts = .ok o ↔
      ∃ g', g.set s value = .ok g' ∧ parseFrom g' none ts = .ok o := by
  cases hset : g.set s value with
  | error fault =>
    cases ts with
    | nil => simp [parseFrom, Given.finish, Given.close, hset]
    | cons t rest =>
      unfold parseFrom
      cases Token.ofText t with
      | setting s' attached => cases attached <;> simp [Given.close, hset]
      | _ => simp [Given.finish, Given.close, hset]
  | ok g' =>
    simp only [Except.ok.injEq, exists_eq_left']
    cases ts with
    | nil => simp [parseFrom, Given.finish, Given.close, hset]
    | cons t rest =>
      unfold parseFrom
      cases Token.ofText t with
      | setting s' attached => cases attached <;> simp [Given.close, hset]
      | _ => simp [Given.finish, Given.close, hset]

theorem parseFrom_name_eq_ok_iff :
    parseFrom g (some (s, none)) ts = .ok o ↔
      ∃ v rest g', ts = v :: rest ∧ ¬ IsOption v ∧ g.set s v = .ok g' ∧
        parseFrom g' none rest = .ok o := by
  constructor
  · intro h
    cases ts with
    | nil => simp [parseFrom, Given.finish, Given.close] at h
    | cons v rest =>
      unfold parseFrom at h
      cases htoken : Token.ofText v with
      | positional =>
        simp only [htoken] at h
        obtain ⟨g', hset, hrest⟩ := parseFrom_value_eq_ok_iff.mp h
        exact ⟨v, rest, g', rfl, ofText_eq_positional_iff.mp htoken, hset, hrest⟩
      | setting s' attached => cases attached <;> simp [htoken, Given.close] at h
      | _ => simp [htoken, Given.finish, Given.close] at h
  · intro h
    obtain ⟨v, rest, g', rfl, hopt, hset, hrest⟩ := h
    unfold parseFrom
    rw [ofText_eq_positional_iff.mpr hopt]
    exact parseFrom_value_eq_ok_iff.mpr ⟨g', hset, hrest⟩

theorem reads_of_parseFrom : (g : Given) → (ts : List Text) → (o : Options) →
    parseFrom g none ts = .ok o → Reads g ts o
  | g, [], o, h => by
    simp only [parseFrom, Given.finish, Given.close, Except.ok.injEq] at h
    rw [← h]
    exact .ending (.bare (by simp))
  | g, t :: rest, o, h => by
    have hshape := shape_ofText t
    unfold parseFrom at h
    generalize Token.ofText t = token at h hshape
    cases hshape with
    | separator =>
      simp only [Given.finish, Given.close, Except.ok.injEq] at h
      rw [← h]
      exact .ending .separated
    | positional hopt =>
      simp only [Given.finish, Given.close, Except.ok.injEq] at h
      rw [← h]
      exact .ending (.bare (by simpa using hopt))
    | stop _ hstop => obtain rfl | rfl | rfl := hstop <;> simp [Given.close] at h
    | short s =>
      obtain ⟨v, rest', g', hrest, hopt, hset, h⟩ := parseFrom_name_eq_ok_iff.mp h
      rw [hrest]
      exact .segment (.short hopt) hset (reads_of_parseFrom g' rest' o h)
    | long s =>
      obtain ⟨v, rest', g', hrest, hopt, hset, h⟩ := parseFrom_name_eq_ok_iff.mp h
      rw [hrest]
      exact .segment (.long hopt) hset (reads_of_parseFrom g' rest' o h)
    | attached s value =>
      cases hset : g.set s value with
      | error fault => simp [Given.close, hset] at h
      | ok g' =>
        simp only [Given.close, hset] at h
        exact .segment .attached hset (reads_of_parseFrom g' rest o h)
    | @cluster s value hall =>
      cases hset : g.set s value with
      | error fault => simp [Given.close, hset] at h
      | ok g' => exact absurd hset (set_ne_ok_of_shortNames hall)
termination_by _ ts => ts.length
decreasing_by
  · simp only [hrest, List.length_cons]
    omega
  · simp only [hrest, List.length_cons]
    omega
  · exact Nat.lt_succ_self rest.length

theorem parseFrom_of_ending {args rest : List Text} (h : Ending args rest) :
    parseFrom g none rest = .ok (g.options args) := by
  cases h with
  | bare hhead =>
    cases args with
    | nil => rfl
    | cons t rest =>
      unfold parseFrom
      rw [ofText_eq_positional_iff.mpr (hhead t rfl)]
      rfl
  | separated => rfl

theorem parseFrom_eq_ok_iff : parseFrom g none ts = .ok o ↔ Reads g ts o := by
  constructor
  · exact reads_of_parseFrom g ts o
  · intro h
    induction h with
    | ending hend => exact parseFrom_of_ending hend
    | @segment g g' s value tokens rest o hsegment hset _ ih =>
      unfold parseFrom
      cases hsegment with
      | short hopt =>
        simp only [List.cons_append, List.nil_append, ofText_short, Given.close]
        exact parseFrom_name_eq_ok_iff.mpr ⟨value, rest, g', rfl, hopt, hset, ih⟩
      | long hopt =>
        simp only [List.cons_append, List.nil_append, ofText_long, Given.close]
        exact parseFrom_name_eq_ok_iff.mpr ⟨value, rest, g', rfl, hopt, hset, ih⟩
      | attached =>
        simp only [List.cons_append, List.nil_append, ofText_attached, Given.close, hset]
        exact ih

end Reading

section Line

variable {g g' : Given} {s : Setting} {value : Text} {given : List (Setting × Text)} {o : Options}

def Given.has (g : Given) : Setting → Bool
  | .endpoint => g.endpoint.isSome
  | .width => g.width.isSome

def Given.Leaves (g : Given) (o : Options) : Setting → Prop
  | .endpoint => o.endpoint = g.endpoint.getD Address.standard
  | .width => o.width = g.width.getD Value.defaultWidth

theorem leaves_options (g : Given) (args : List Text) (s : Setting) :
    g.Leaves (g.options args) s := by
  cases s <;> rfl

theorem eq_options (h : ∀ s, g.Leaves o s) : o = g.options o.args := by
  have hendpoint := h .endpoint
  have hwidth := h .width
  simp only [Given.Leaves] at hendpoint hwidth
  obtain ⟨endpoint, width, args⟩ := o
  subst hendpoint hwidth
  rfl

structure Given.Sets (g : Given) (s : Setting) (value : Text) (g' : Given) : Prop where
  fresh : g.has s = false
  taken : g'.has s = true
  has_ne : ∀ other, other ≠ s → g'.has other = g.has other
  leaves_iff : ∀ o, g'.Leaves o s ↔ o.Has s value
  leaves_ne : ∀ o other, other ≠ s → (g'.Leaves o other ↔ g.Leaves o other)

theorem sets_of_set (h : g.set s value = .ok g') : g.Sets s value g' := by
  cases s with
  | endpoint =>
    obtain ⟨hnone, a, hread, rfl⟩ := set_endpoint_eq_ok_iff.mp h
    refine ⟨by simp [Given.has, hnone], rfl, fun other hother => ?_, fun o => ?_,
      fun o other hother => ?_⟩
    · cases other with
      | endpoint => exact absurd rfl hother
      | width => rfl
    · simp [Given.Leaves, Options.Has, hread, eq_comm]
    · cases other with
      | endpoint => exact absurd rfl hother
      | width => exact Iff.rfl
  | width =>
    obtain ⟨hnone, w, hread, rfl⟩ := set_width_eq_ok_iff.mp h
    refine ⟨by simp [Given.has, hnone], rfl, fun other hother => ?_, fun o => ?_,
      fun o other hother => ?_⟩
    · cases other with
      | endpoint => rfl
      | width => exact absurd rfl hother
    · simp [Given.Leaves, Options.Has, hread, eq_comm]
    · cases other with
      | endpoint => exact Iff.rfl
      | width => exact absurd rfl hother

theorem exists_set (hfresh : g.has s = false) (hvalue : o.Has s value) :
    ∃ g', g.set s value = .ok g' := by
  cases s with
  | endpoint =>
    exact ⟨_, set_endpoint_eq_ok_iff.mpr
      ⟨Option.isNone_iff_eq_none.mp (by simpa [Given.has] using hfresh), _, hvalue, rfl⟩⟩
  | width =>
    exact ⟨_, set_width_eq_ok_iff.mpr
      ⟨Option.isNone_iff_eq_none.mp (by simpa [Given.has] using hfresh), _, hvalue, rfl⟩⟩

/-- The settings that are still to come, and the options that they lead to. -/
structure Given.Completed (g : Given) (given : List (Setting × Text)) (o : Options) : Prop where
  distinct : (given.map Prod.fst).Nodup
  fresh : ∀ s ∈ given.map Prod.fst, g.has s = false
  value : ∀ s, (given.lookup s).elim (g.Leaves o s) (o.Has s)

theorem lookup_eq_none_of_not_mem (h : s ∉ given.map Prod.fst) : given.lookup s = none := by
  rw [List.lookup_eq_none_iff]
  intro p hp
  simp only [bne_iff_ne, ne_eq]
  rintro rfl
  exact h (List.mem_map_of_mem hp)

theorem lookup_cons_ne {other : Setting} (h : other ≠ s) :
    ((s, value) :: given).lookup other = given.lookup other := by
  rw [List.lookup_cons, beq_eq_false_iff_ne.mpr h]

theorem Given.Sets.value_iff (h : g.Sets s value g') (hnew : s ∉ given.map Prod.fst)
    (other : Setting) :
    (((s, value) :: given).lookup other).elim (g.Leaves o other) (o.Has other) ↔
      (given.lookup other).elim (g'.Leaves o other) (o.Has other) := by
  by_cases hother : other = s
  · rw [hother, List.lookup_cons_self, lookup_eq_none_of_not_mem hnew]
    exact (h.leaves_iff o).symm
  · rw [lookup_cons_ne hother]
    cases given.lookup other with
    | none => exact (h.leaves_ne o other hother).symm
    | some value => exact Iff.rfl

theorem completed_cons_iff (h : g.Sets s value g') :
    g.Completed ((s, value) :: given) o ↔ g'.Completed given o := by
  constructor
  · intro hdone
    obtain ⟨hnew, hdistinct⟩ := List.nodup_cons.mp hdone.distinct
    refine ⟨hdistinct, fun other hother => ?_, fun other =>
      (h.value_iff hnew other).mp (hdone.value other)⟩
    rw [h.has_ne other fun heq => hnew (heq ▸ hother)]
    exact hdone.fresh other (List.mem_cons_of_mem _ hother)
  · intro hdone
    have hnew : s ∉ given.map Prod.fst := by
      intro hmem
      have hfresh := hdone.fresh s hmem
      rw [h.taken] at hfresh
      exact Bool.noConfusion hfresh
    refine ⟨List.nodup_cons.mpr ⟨hnew, hdone.distinct⟩, List.forall_mem_cons.mpr
      ⟨h.fresh, fun other hother => ?_⟩, fun other =>
      (h.value_iff hnew other).mpr (hdone.value other)⟩
    rw [← h.has_ne other fun heq => hnew (heq ▸ hother)]
    exact hdone.fresh other hother

theorem reads_iff (g : Given) (ts : List Text) (o : Options) :
    Reads g ts o ↔ ∃ given front rest, ts = front ++ rest ∧ Segments given front ∧
      Ending o.args rest ∧ g.Completed given o := by
  constructor
  · intro h
    induction h with
    | @ending g args rest hend =>
      exact ⟨[], [], rest, rfl, .nil, hend, List.nodup_nil, by simp, leaves_options g args⟩
    | @segment g g' s value tokens _ o hsegment hset _ ih =>
      obtain ⟨given, front, rest, rfl, hsegments, hend, hdone⟩ := ih
      exact ⟨(s, value) :: given, tokens ++ front, rest, (List.append_assoc ..).symm,
        .cons hsegment hsegments, hend, (completed_cons_iff (sets_of_set hset)).mpr hdone⟩
  · intro h
    obtain ⟨given, front, rest, rfl, hsegments, hend, hdone⟩ := h
    induction hsegments generalizing g with
    | nil =>
      rw [eq_options hdone.value]
      exact .ending hend
    | @cons s value given tokens front hsegment _ ih =>
      obtain ⟨g', hset⟩ := exists_set (hdone.fresh s List.mem_cons_self)
        (by simpa using hdone.value s)
      rw [List.append_assoc]
      exact .segment hsegment hset (ih g' ((completed_cons_iff (sets_of_set hset)).mp hdone))

theorem has_standard_iff (s : Setting) : o.Has s s.standard ↔ Given.nothing.Leaves o s := by
  cases s with
  | endpoint =>
    have hread : Address.read Setting.endpoint.standard = .ok Address.standard :=
      Address.read_text Address.wellFormed_standard
    simp only [Options.Has, hread, Given.Leaves, Except.ok.injEq]
    exact eq_comm
  | width =>
    have hread : Numeral.readWidth Setting.width.standard = .ok Value.defaultWidth := rfl
    simp only [Options.Has, hread, Given.Leaves, Except.ok.injEq]
    exact eq_comm

theorem completed_nothing_iff :
    Given.nothing.Completed given o ↔
      (given.map Prod.fst).Nodup ∧ ∀ s, o.Has s ((given.lookup s).getD s.standard) := by
  have hvalue : ∀ s, o.Has s ((given.lookup s).getD s.standard) ↔
      (given.lookup s).elim (Given.nothing.Leaves o s) (o.Has s) := by
    intro s
    cases given.lookup s with
    | none => exact has_standard_iff s
    | some value => exact Iff.rfl
  constructor
  · exact fun h => ⟨h.distinct, fun s => (hvalue s).mpr (h.value s)⟩
  · exact fun h => ⟨h.1, fun s _ => by cases s <;> rfl, fun s => (hvalue s).mp (h.2 s)⟩

theorem parse_eq_ok_iff (argv : List Text) (o : Options) : parse argv = .ok o ↔ Line argv o := by
  rw [parse, parseFrom_eq_ok_iff, reads_iff]
  constructor
  · intro h
    obtain ⟨given, front, rest, rfl, hsegments, hend, hdone⟩ := h
    obtain ⟨hnodup, hvalue⟩ := completed_nothing_iff.mp hdone
    exact .mk hsegments hnodup hend hvalue
  · intro h
    cases h with
    | mk hsegments hnodup hend hvalue =>
      exact ⟨_, _, _, rfl, hsegments, hend, completed_nothing_iff.mpr ⟨hnodup, hvalue⟩⟩

theorem Line.args_suffix {argv : List Text} (h : Line argv o) : o.args <:+ argv := by
  cases h with
  | @mk given front rest _ hsegments _ hend _ =>
    cases hend with
    | bare _ => exact List.suffix_append front o.args
    | separated => exact ⟨front ++ [separator], by simp⟩

def attachedToken (p : Setting × Text) : Text := '-' :: '-' :: (p.1.longName ++ '=' :: p.2)

theorem segments_attached (given : List (Setting × Text)) :
    Segments given (given.map attachedToken) := by
  induction given with
  | nil => exact .nil
  | cons p given ih => exact .cons .attached ih

def Options.written (o : Options) : Setting → Text
  | .endpoint => o.endpoint.text
  | .width => Numeral.ofNat o.width.toNat

theorem Options.has_written {t : Text} (h : Address.read t = .ok o.endpoint) (s : Setting) :
    o.Has s (o.written s) := by
  cases s with
  | endpoint => exact Address.read_text (Address.wellFormed_of_read h)
  | width => exact Numeral.readWidth_ofNat o.width

theorem parse_written {t : Text} (h : Address.read t = .ok o.endpoint) (settings : List Setting)
    (hnodup : settings.Nodup) (hall : ∀ s, s ∈ settings) :
    parse ((settings.map fun s => attachedToken (s, o.written s)) ++ separator :: o.args) =
      .ok o := by
  have hvalue : ∀ s, o.Has s
      (((settings.map fun s => (s, o.written s)).lookup s).getD s.standard) := by
    intro s
    rw [List.lookup_graph o.written (hall s)]
    exact o.has_written h s
  have hsegments := segments_attached (settings.map fun s => (s, o.written s))
  rw [List.map_map] at hsegments
  refine (parse_eq_ok_iff _ o).mpr (.mk hsegments ?_ .separated hvalue)
  rwa [List.map_map, show (Prod.fst ∘ fun s => (s, o.written s)) = id from rfl, List.map_id]

/-- The command lines that are read are those of the grammar. Their arguments are what they end in,
and any address, width and arguments can be written down. -/
theorem parse_grammar :
    (∀ argv o, parse argv = .ok o ↔ Line argv o) ∧
    (∀ argv o, parse argv = .ok o → o.args <:+ argv) ∧
    ∀ s a (w : UInt64) args, Address.read s = .ok a →
      parse (["--endpoint=".toList ++ a.text, "--width=".toList ++ Numeral.ofNat w.toNat,
        "--".toList] ++ args) = .ok ⟨a, w, args⟩ ∧
      parse (["--width=".toList ++ Numeral.ofNat w.toNat, "--endpoint=".toList ++ a.text,
        "--".toList] ++ args) = .ok ⟨a, w, args⟩ := by
  refine ⟨parse_eq_ok_iff, fun argv o h => ((parse_eq_ok_iff argv o).mp h).args_suffix, ?_⟩
  intro t a w args h
  have hread : Address.read t = .ok (Options.mk a w args).endpoint := h
  exact ⟨parse_written hread [.endpoint, .width] (by decide) fun s => by cases s <;> decide,
    parse_written hread [.width, .endpoint] (by decide) fun s => by cases s <;> decide⟩

end Line

end QueryConsole.Command
