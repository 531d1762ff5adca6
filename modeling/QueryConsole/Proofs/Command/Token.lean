import QueryConsole.Command.Options

set_option autoImplicit false

namespace QueryConsole.Command

def Setting.longName : Setting → Text
  | .endpoint => "endpoint".toList
  | .width => "width".toList

def Setting.shortName : Setting → Char
  | .endpoint => 'e'
  | .width => 'w'

def longNames : List Text :=
  ["endpoint".toList, "width".toList, "help".toList, "version".toList]

def shortNames : List Char := ['e', 'w', 'h', 'V']

def separator : Text := ['-', '-']

/-- The tokens that are options: two hyphens, a long name, perhaps with a value attached, and short
names behind one hyphen. -/
inductive IsOption : Text → Prop where
  | separator : IsOption separator
  | long {name : Text} : name ∈ longNames → IsOption ('-' :: '-' :: name)
  | attached {name : Text} (value : Text) :
      name ∈ longNames → IsOption ('-' :: '-' :: (name ++ '=' :: value))
  | short {names : List Char} :
      names ≠ [] → (∀ c ∈ names, c ∈ shortNames) → IsOption ('-' :: names)

def Token.Stops (t : Token) : Prop := t = .help ∨ t = .version ∨ t = .needless

section Token

variable {name : Text}

theorem longToken_of_mem (attached : Option Text) (h : name ∈ longNames) :
    (∃ s : Setting, name = s.longName ∧ longToken name attached = .setting s attached) ∨
      (longToken name attached).Stops := by
  simp only [longNames, List.mem_cons, List.not_mem_nil, or_false] at h
  obtain rfl | rfl | rfl | rfl := h
  · exact .inl ⟨.endpoint, rfl, rfl⟩
  · exact .inl ⟨.width, rfl, rfl⟩
  · cases attached with
    | none => exact .inr (.inl rfl)
    | some value => exact .inr (.inr (.inr rfl))
  · cases attached with
    | none => exact .inr (.inr (.inl rfl))
    | some value => exact .inr (.inr (.inr rfl))

theorem longToken_of_not_mem (attached : Option Text) (h : name ∉ longNames) :
    longToken name attached = .positional := by
  simp only [longNames, List.mem_cons, List.not_mem_nil, or_false, not_or] at h
  obtain ⟨hendpoint, hwidth, hhelp, hversion⟩ := h
  rw [longToken, if_neg hendpoint, if_neg hwidth, if_neg hhelp, if_neg hversion]

theorem isShortName_iff {c : Char} : isShortName c = true ↔ c ∈ shortNames := by
  simp [isShortName, shortNames]

theorem shortToken_of_mem {c : Char} {rest : Text} (h : ∀ d ∈ c :: rest, d ∈ shortNames) :
    (∃ s : Setting, c = s.shortName ∧
      shortToken c rest = .setting s (if rest = [] then none else some rest)) ∨
      (shortToken c rest).Stops := by
  have hall : (c :: rest).all isShortName = true :=
    List.all_eq_true.mpr fun d hd => isShortName_iff.mpr (h d hd)
  have hc := h c List.mem_cons_self
  simp only [shortNames, List.mem_cons, List.not_mem_nil, or_false] at hc
  simp only [shortToken, hall, if_true]
  obtain rfl | rfl | rfl | rfl := hc
  · exact .inl ⟨.endpoint, rfl, rfl⟩
  · exact .inl ⟨.width, rfl, rfl⟩
  · exact .inr (.inl rfl)
  · exact .inr (.inr (.inl rfl))

theorem shortToken_of_not_mem {c : Char} {rest : Text} (h : ¬ ∀ d ∈ c :: rest, d ∈ shortNames) :
    shortToken c rest = .positional := by
  have hall : ¬ (c :: rest).all isShortName = true := by
    intro hall
    exact h fun d hd => isShortName_iff.mp (List.all_eq_true.mp hall d hd)
  rw [shortToken, if_neg hall]

theorem isOption_long_iff {body : Text} :
    IsOption ('-' :: '-' :: body) ↔
      body = [] ∨ body ∈ longNames ∨
        ∃ name value, name ∈ longNames ∧ body = name ++ '=' :: value := by
  constructor
  · intro h
    generalize ht : '-' :: '-' :: body = t at h
    cases h with
    | separator => exact .inl (List.cons.inj (List.cons.inj ht).2).2
    | long hname =>
      rw [(List.cons.inj (List.cons.inj ht).2).2]
      exact .inr (.inl hname)
    | attached value hname =>
      exact .inr (.inr ⟨_, value, hname, (List.cons.inj (List.cons.inj ht).2).2⟩)
    | short hne hall =>
      have hhyphen := hall '-' (by rw [← (List.cons.inj ht).2]; exact List.mem_cons_self)
      exact absurd hhyphen (by decide)
  · intro h
    obtain rfl | hname | ⟨name, value, hname, rfl⟩ := h
    · exact .separator
    · exact .long hname
    · exact .attached value hname

theorem isOption_short_iff {c : Char} {rest : Text} (hc : c ≠ '-') :
    IsOption ('-' :: c :: rest) ↔ ∀ d ∈ c :: rest, d ∈ shortNames := by
  constructor
  · intro h
    generalize ht : '-' :: c :: rest = t at h
    cases h with
    | separator => exact absurd (List.cons.inj (List.cons.inj ht).2).1 hc
    | long hname => exact absurd (List.cons.inj (List.cons.inj ht).2).1 hc
    | attached value hname => exact absurd (List.cons.inj (List.cons.inj ht).2).1 hc
    | short hne hall =>
      rw [(List.cons.inj ht).2]
      exact hall
  · exact fun h => .short (List.cons_ne_nil c rest) h

theorem not_isOption_of_head {t : Text} (h : ∀ c u, t ≠ '-' :: c :: u) : ¬ IsOption t := by
  intro hopt
  cases hopt with
  | separator => exact h _ _ rfl
  | long hname => exact h _ _ rfl
  | attached value hname => exact h _ _ rfl
  | short hne hall =>
    obtain ⟨c, u, rfl⟩ := List.exists_cons_of_ne_nil hne
    exact h c u rfl

theorem equals_not_mem_of_mem (h : name ∈ longNames) : '=' ∉ name := by
  have hall : ∀ n ∈ longNames, '=' ∉ n := by decide
  exact hall name h

inductive Shape : Text → Token → Prop where
  | separator : Shape separator .separator
  | positional {t : Text} : ¬ IsOption t → Shape t .positional
  | stop {t : Text} {token : Token} : IsOption t → token.Stops → Shape t token
  | short (s : Setting) : Shape ['-', s.shortName] (.setting s none)
  | long (s : Setting) : Shape ('-' :: '-' :: s.longName) (.setting s none)
  | attached (s : Setting) (value : Text) :
      Shape ('-' :: '-' :: (s.longName ++ '=' :: value)) (.setting s (some value))
  | cluster (s : Setting) {value : Text} : (∀ c ∈ value, c ∈ shortNames) →
      Shape ('-' :: s.shortName :: value) (.setting s (some value))

theorem shape_long (body : Text) (hbody : body ≠ []) :
    Shape ('-' :: '-' :: body) (Token.ofText ('-' :: '-' :: body)) := by
  obtain ⟨b, u, hcons⟩ := List.exists_cons_of_ne_nil hbody
  cases hsplit : splitFirst '=' body with
  | none =>
    have hequals := splitFirst_eq_none_iff.mp hsplit
    have htoken : Token.ofText ('-' :: '-' :: body) = longToken body none := by
      rw [hcons] at hsplit ⊢
      simp only [Token.ofText, hsplit]
    rw [htoken]
    by_cases hmem : body ∈ longNames
    · obtain ⟨s, rfl, hs⟩ | hstop := longToken_of_mem none hmem
      · rw [hs]
        exact .long s
      · exact .stop (.long hmem) hstop
    · rw [longToken_of_not_mem _ hmem]
      refine .positional fun hopt => ?_
      obtain h | h | ⟨name, value, -, h⟩ := isOption_long_iff.mp hopt
      · exact hbody h
      · exact hmem h
      · exact hequals (by simp [h])
  | some parts =>
    obtain ⟨name, value⟩ := parts
    obtain ⟨hparts, hequals⟩ := splitFirst_eq_some_iff.mp hsplit
    have htoken : Token.ofText ('-' :: '-' :: body) = longToken name (some value) := by
      rw [hcons] at hsplit ⊢
      simp only [Token.ofText, hsplit]
    rw [htoken, hparts]
    by_cases hmem : name ∈ longNames
    · obtain ⟨s, rfl, hs⟩ | hstop := longToken_of_mem (some value) hmem
      · rw [hs]
        exact .attached s value
      · exact .stop (.attached value hmem) hstop
    · rw [longToken_of_not_mem _ hmem]
      refine .positional fun hopt => ?_
      obtain h | h | ⟨name', value', hmem', h⟩ := isOption_long_iff.mp hopt
      · exact absurd h (by simp)
      · exact equals_not_mem_of_mem h (by simp)
      · have hsplit' := splitFirst_append value' (equals_not_mem_of_mem hmem')
        rw [← h, splitFirst_append value hequals] at hsplit'
        simp only [Option.some.injEq, Prod.mk.injEq] at hsplit'
        exact hmem (hsplit'.1 ▸ hmem')

theorem shape_short {c : Char} (rest : Text) (hc : c ≠ '-') :
    Shape ('-' :: c :: rest) (Token.ofText ('-' :: c :: rest)) := by
  have htoken : Token.ofText ('-' :: c :: rest) = shortToken c rest := by
    rw [Token.ofText.eq_def]
    simp [hc]
  rw [htoken]
  by_cases hall : ∀ d ∈ c :: rest, d ∈ shortNames
  · obtain ⟨s, rfl, hs⟩ | hstop := shortToken_of_mem hall
    · rw [hs]
      by_cases hrest : rest = []
      · rw [if_pos hrest, hrest]
        exact .short s
      · rw [if_neg hrest]
        exact .cluster s fun d hd => hall d (List.mem_cons_of_mem _ hd)
    · exact .stop ((isOption_short_iff hc).mpr hall) hstop
  · rw [shortToken_of_not_mem hall]
    exact .positional fun hopt => hall ((isOption_short_iff hc).mp hopt)

theorem shape_ofText (t : Text) : Shape t (Token.ofText t) := by
  by_cases hhead : ∃ c u, t = '-' :: c :: u
  · obtain ⟨c, u, rfl⟩ := hhead
    by_cases hc : c = '-'
    · subst hc
      by_cases hu : u = []
      · rw [hu]
        exact .separator
      · exact shape_long u hu
    · exact shape_short u hc
  · have hother : Token.ofText t = .positional := by
      rw [Token.ofText.eq_def]
      split
      · exact absurd ⟨_, _, rfl⟩ hhead
      · exact absurd ⟨_, _, rfl⟩ hhead
      · exact absurd ⟨_, _, rfl⟩ hhead
      · rfl
    rw [hother]
    exact .positional (not_isOption_of_head fun c u h => hhead ⟨c, u, h⟩)

theorem isOption_long (s : Setting) : IsOption ('-' :: '-' :: s.longName) := by
  cases s with
  | endpoint => exact .long (by decide)
  | width => exact .long (by decide)

theorem isOption_attached (s : Setting) (value : Text) :
    IsOption ('-' :: '-' :: (s.longName ++ '=' :: value)) := by
  cases s with
  | endpoint => exact .attached value (by decide)
  | width => exact .attached value (by decide)

theorem isOption_cluster (s : Setting) (value : Text) (h : ∀ c ∈ value, c ∈ shortNames) :
    IsOption ('-' :: s.shortName :: value) := by
  refine .short (List.cons_ne_nil _ _) (List.forall_mem_cons.mpr ⟨?_, h⟩)
  cases s <;> decide

theorem ofText_eq_positional_iff {t : Text} : Token.ofText t = .positional ↔ ¬ IsOption t := by
  have hshape := shape_ofText t
  generalize Token.ofText t = token at hshape
  cases hshape with
  | separator => simp [IsOption.separator]
  | positional hopt => simp [hopt]
  | stop hopt hstop => obtain rfl | rfl | rfl := hstop <;> simp [hopt]
  | short s => simp [isOption_cluster s [] (by simp)]
  | long s => simp [isOption_long s]
  | attached s value => simp [isOption_attached s value]
  | cluster s hall => simp [isOption_cluster s _ hall]

theorem ofText_short (s : Setting) : Token.ofText ['-', s.shortName] = .setting s none := by
  cases s <;> rfl

theorem ofText_long (s : Setting) : Token.ofText ('-' :: '-' :: s.longName) = .setting s none := by
  cases s <;> rfl

theorem ofText_attached (s : Setting) (value : Text) :
    Token.ofText ('-' :: '-' :: (s.longName ++ '=' :: value)) = .setting s (some value) := by
  cases s <;> rfl

end Token

end QueryConsole.Command
