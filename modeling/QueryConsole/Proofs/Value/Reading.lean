import QueryConsole.Proofs.Value.Breaks

set_option autoImplicit false

namespace QueryConsole.Value

mutual
/-- The value as far as its text tells: without a kind it is null, zero has one sign, and all that
are no numbers are one. -/
def normal : Value → Value
  | .unset => .null
  | .null => .null
  | .bool b => .bool b
  | .number x => .number x.normal
  | .string s => .string s
  | .list vs => .list (normalList vs)
  | .record es => .record (normalEntries es)

def normalList : List Value → List Value
  | [] => []
  | v :: vs => v.normal :: normalList vs

def normalEntries : List (Text × Value) → List (Text × Value)
  | [] => []
  | (k, v) :: es => (k, v.normal) :: normalEntries es
end

def wordValue? (word : Text) : Option Value :=
  if word = nullText then some .null
  else if word = trueText then some (.bool true)
  else if word = falseText then some (.bool false)
  else (Double.read? word).map .number

def readWord? (t : Text) : Option (Value × Text) :=
  (wordValue? (t.takeWhile Double.isBare)).map fun v => (v, t.dropWhile Double.isBare)

def readKey? (t : Text) : Option (Text × Text) :=
  match Quoted.read? t with
  | some (k, ':' :: ' ' :: rest) => some (k, rest)
  | _ => none

mutual
/-- Reads a value of no more characters than `fuel`, with what follows it. -/
def readFuel? : Nat → Text → Option (Value × Text)
  | 0, _ => none
  | _ + 1, [] => none
  | fuel + 1, c :: t =>
    if c = '[' then
      if t.head? = some ']' then some (.list [], t.tail)
      else (readItems? fuel t).map fun p => (.list p.1, p.2)
    else if c = '\x7b' then
      if t.head? = some '\x7d' then some (.record [], t.tail)
      else (readEntries? fuel t).map fun p => (.record p.1, p.2)
    else if c = '\'' ∨ c = '"' then
      (Quoted.read? (c :: t)).map fun p => (.string p.1, p.2)
    else readWord? (c :: t)

def readItems? : Nat → Text → Option (List Value × Text)
  | 0, _ => none
  | fuel + 1, t =>
    match readFuel? fuel t with
    | some (v, ']' :: rest) => some ([v], rest)
    | some (v, ',' :: ' ' :: rest) => (readItems? fuel rest).map fun p => (v :: p.1, p.2)
    | _ => none

def readEntries? : Nat → Text → Option (List (Text × Value) × Text)
  | 0, _ => none
  | fuel + 1, t =>
    match readKey? t with
    | none => none
    | some (k, u) =>
      match readFuel? fuel u with
      | some (v, '\x7d' :: rest) => some ([(k, v)], rest)
      | some (v, ',' :: ' ' :: rest) => (readEntries? fuel rest).map fun p => ((k, v) :: p.1, p.2)
      | _ => none
end

def read? (t : Text) : Option Value :=
  match readFuel? t.length t with
  | some (v, []) => some v
  | _ => none

def Ends (t : Text) : Prop := ∀ c ∈ t.head?, Double.isBare c = false

theorem ends_nil : Ends [] := by
  intro c hc
  simp at hc

theorem ends_cons {c : Char} (t : Text) (hc : Double.isBare c = false) : Ends (c :: t) := by
  intro d hd
  simp only [List.head?_cons, Option.mem_def, Option.some.injEq] at hd
  rwa [← hd]

theorem readWord?_append {word tail : Text} (hword : ∀ c ∈ word, Double.isBare c = true)
    (htail : Ends tail) : readWord? (word ++ tail) = (wordValue? word).map fun v => (v, tail) := by
  have htake : tail.takeWhile Double.isBare = [] ∧ tail.dropWhile Double.isBare = tail := by
    cases tail with
    | nil => exact ⟨rfl, rfl⟩
    | cons c tail =>
      have hc := htail c rfl
      simp [hc]
  rw [readWord?, List.takeWhile_append_of_pos hword, List.dropWhile_append_of_pos hword, htake.1,
    htake.2, List.append_nil]

theorem read?_names : Double.read? nullText = none ∧ Double.read? trueText = none ∧
    Double.read? falseText = none := by
  decide +kernel

theorem wordValue?_number (x : Double) : wordValue? x.text = some (.number x.normal) := by
  have hread := x.read?_text
  have hother : ∀ t, Double.read? t = none → x.text ≠ t := by
    intro t ht h
    rw [← h, hread] at ht
    simp at ht
  obtain ⟨hnull, htrue, hfalse⟩ := read?_names
  rw [wordValue?, if_neg (hother _ hnull), if_neg (hother _ htrue), if_neg (hother _ hfalse), hread]
  rfl

theorem readFuel?_word {c : Char} {t : Text} (fuel : Nat) (hc : Double.isBare c = true) :
    readFuel? (fuel + 1) (c :: t) = readWord? (c :: t) := by
  have hother : ∀ d, Double.isBare d = false → c ≠ d := by
    intro d hd h
    rw [h, hd] at hc
    exact Bool.noConfusion hc
  have hquote : ¬ (c = '\'' ∨ c = '"') := by
    intro h
    rcases h with h | h
    · exact hother _ rfl h
    · exact hother _ rfl h
  rw [readFuel?, if_neg (hother _ rfl), if_neg (hother _ rfl), if_neg hquote]

theorem readFuel?_append_word {word tail : Text} {v : Value} {fuel : Nat} (htail : Ends tail)
    (hlength : word.length ≤ fuel) (hword : ∀ c ∈ word, Double.isBare c = true) (hne : word ≠ [])
    (hvalue : wordValue? word = some v) : readFuel? fuel (word ++ tail) = some (v, tail) := by
  have hread := readWord?_append hword htail
  rw [hvalue] at hread
  cases word with
  | nil => exact absurd rfl hne
  | cons c word =>
    cases fuel with
    | zero => simp at hlength
    | succ fuel =>
      rw [List.cons_append, readFuel?_word fuel (hword c (by simp))]
      exact hread

theorem readFuel?_quoted {fuel : Nat} (s tail : Text) (hlength : (Quoted.write s).length ≤ fuel) :
    readFuel? fuel (Quoted.write s ++ tail) = some (.string s, tail) := by
  have hread := Quoted.read?_write s tail
  have hmark := Quoted.isMark_quoteMark s
  unfold Quoted.write at hlength hread ⊢
  cases fuel with
  | zero => simp at hlength
  | succ fuel =>
    have hlist : Quoted.quoteMark s ≠ '[' := by rcases hmark with h | h <;> rw [h] <;> decide
    have hrecord : Quoted.quoteMark s ≠ '\x7b' := by rcases hmark with h | h <;> rw [h] <;> decide
    simp only [List.cons_append] at hread ⊢
    rw [readFuel?, if_neg hlist, if_neg hrecord, if_pos (by exact hmark), hread]
    rfl

theorem readKey?_keyText (k tail : Text) : readKey? (keyText k ++ tail) = some (k, tail) := by
  have hread := Quoted.read?_write k (':' :: ' ' :: tail)
  rw [readKey?, keyText, List.append_assoc]
  simp only [List.cons_append, List.nil_append]
  rw [hread]
  rfl

theorem exists_line_eq_cons (v : Value) : ∃ c t, v.line = c :: t ∧ c ≠ ']' := by
  cases v with
  | unset => exact ⟨_, _, rfl, by decide⟩
  | null => exact ⟨_, _, rfl, by decide⟩
  | bool b => cases b <;> exact ⟨_, _, rfl, by decide⟩
  | number x =>
    cases h : x.text with
    | nil => exact absurd h x.text_ne_nil
    | cons c t =>
      have hc : Double.isBare c = true := Double.isBare_of_mem_text (x := x) (by simp [h])
      refine ⟨c, t, by rw [line, h], ?_⟩
      intro heq
      rw [heq] at hc
      exact absurd hc (by decide)
  | string s =>
    refine ⟨Quoted.quoteMark s, _, rfl, ?_⟩
    rcases Quoted.isMark_quoteMark s with h | h <;> rw [h] <;> decide
  | list vs => exact ⟨_, _, rfl, by decide⟩
  | record es => exact ⟨_, _, rfl, by decide⟩

theorem head?_lineList (v : Value) (vs : List Value) (t : Text) :
    (lineList (v :: vs) ++ t).head? ≠ some ']' := by
  obtain ⟨c, u, hline, hc⟩ := v.exists_line_eq_cons
  cases vs with
  | nil => simp [lineList, hline, hc]
  | cons w vs => simp [lineList, hline, hc]

theorem head?_lineEntries (k : Text) (v : Value) (es : List (Text × Value)) (t : Text) :
    (lineEntries ((k, v) :: es) ++ t).head? ≠ some '\x7d' := by
  have hmark : Quoted.quoteMark k ≠ '\x7d' := by
    rcases Quoted.isMark_quoteMark k with h | h <;> rw [h] <;> decide
  cases es with
  | nil => simp [lineEntries, keyText, Quoted.write, hmark]
  | cons e es => simp [lineEntries, keyText, Quoted.write, hmark]

mutual
theorem readFuel?_line : (v : Value) → (fuel : Nat) → (tail : Text) → v.line.length ≤ fuel →
    Ends tail → readFuel? fuel (v.line ++ tail) = some (v.normal, tail)
  | .unset, _, _, hlength, htail =>
    readFuel?_append_word htail hlength (Double.isBare_of_all rfl) (List.cons_ne_nil _ _) rfl
  | .null, _, _, hlength, htail =>
    readFuel?_append_word htail hlength (Double.isBare_of_all rfl) (List.cons_ne_nil _ _) rfl
  | .bool true, _, _, hlength, htail =>
    readFuel?_append_word htail hlength (Double.isBare_of_all rfl) (List.cons_ne_nil _ _) rfl
  | .bool false, _, _, hlength, htail =>
    readFuel?_append_word htail hlength (Double.isBare_of_all rfl) (List.cons_ne_nil _ _) rfl
  | .number x, _, _, hlength, htail =>
    readFuel?_append_word htail hlength (fun _ hc => Double.isBare_of_mem_text hc) x.text_ne_nil
      (wordValue?_number x)
  | .string s, _, tail, hlength, _ => readFuel?_quoted s tail hlength
  | .list vs, 0, tail, hlength, _ => by simp [line] at hlength
  | .list [], fuel + 1, tail, _, _ => by simp [line, lineList, readFuel?, normal, normalList]
  | .list (v :: vs), fuel + 1, tail, hlength, _ => by
    have hitems := readItems?_lineList v vs fuel tail (by simp [line] at hlength; omega)
    rw [line, List.append_assoc, List.cons_append, readFuel?, if_pos rfl,
      if_neg (head?_lineList v vs _)]
    simp only [List.cons_append, List.nil_append]
    rw [hitems]
    rfl
  | .record es, 0, tail, hlength, _ => by simp [line] at hlength
  | .record [], fuel + 1, tail, _, _ => by
    simp [line, lineEntries, readFuel?, normal, normalEntries]
  | .record ((k, v) :: es), fuel + 1, tail, hlength, _ => by
    have hentries := readEntries?_lineEntries k v es fuel tail (by simp [line] at hlength; omega)
    rw [line, List.append_assoc, List.cons_append, readFuel?, if_neg (by decide), if_pos rfl,
      if_neg (head?_lineEntries k v es _)]
    simp only [List.cons_append, List.nil_append]
    rw [hentries]
    rfl

theorem readItems?_lineList : (v : Value) → (vs : List Value) → (fuel : Nat) → (tail : Text) →
    (lineList (v :: vs)).length < fuel →
    readItems? fuel (lineList (v :: vs) ++ ']' :: tail) = some (normalList (v :: vs), tail)
  | _, _, 0, _, hlength => by simp at hlength
  | v, [], fuel + 1, tail, hlength => by
    have hv := readFuel?_line v fuel (']' :: tail) (by simp [lineList] at hlength; omega)
      (ends_cons tail rfl)
    simp only [lineList]
    rw [readItems?, hv]
    rfl
  | v, w :: vs, fuel + 1, tail, hlength => by
    have hv := readFuel?_line v fuel (',' :: ' ' :: (lineList (w :: vs) ++ ']' :: tail))
      (by simp [lineList] at hlength; omega) (ends_cons _ rfl)
    have hrest := readItems?_lineList w vs fuel tail (by simp [lineList] at hlength ⊢; omega)
    have hline : lineList (v :: w :: vs) ++ ']' :: tail =
        v.line ++ ',' :: ' ' :: (lineList (w :: vs) ++ ']' :: tail) := by simp [lineList]
    rw [hline, readItems?, hv]
    simp only
    rw [hrest]
    rfl

theorem readEntries?_lineEntries : (k : Text) → (v : Value) → (es : List (Text × Value)) →
    (fuel : Nat) → (tail : Text) → (lineEntries ((k, v) :: es)).length < fuel →
    readEntries? fuel (lineEntries ((k, v) :: es) ++ '\x7d' :: tail) =
      some (normalEntries ((k, v) :: es), tail)
  | _, _, _, 0, _, hlength => by simp at hlength
  | k, v, [], fuel + 1, tail, hlength => by
    have hv := readFuel?_line v fuel ('\x7d' :: tail) (by simp [lineEntries] at hlength; omega)
      (ends_cons tail rfl)
    simp only [lineEntries, List.append_assoc]
    rw [readEntries?, readKey?_keyText]
    simp only
    rw [hv]
    rfl
  | k, v, (l, w) :: es, fuel + 1, tail, hlength => by
    have hv := readFuel?_line v fuel (',' :: ' ' :: (lineEntries ((l, w) :: es) ++ '\x7d' :: tail))
      (by simp [lineEntries] at hlength; omega) (ends_cons _ rfl)
    have hrest := readEntries?_lineEntries l w es fuel tail
      (by simp [lineEntries] at hlength ⊢; omega)
    have hline : lineEntries ((k, v) :: (l, w) :: es) ++ '\x7d' :: tail =
        keyText k ++ (v.line ++ ',' :: ' ' :: (lineEntries ((l, w) :: es) ++ '\x7d' :: tail)) := by
      simp [lineEntries]
    rw [hline, readEntries?, readKey?_keyText]
    simp only
    rw [hv]
    simp only
    rw [hrest]
    rfl
end

/-- What is read from the text of a value is that value as far as its text tells. -/
theorem read?_line (v : Value) : read? v.line = some v.normal := by
  have h := readFuel?_line v v.line.length [] (Nat.le_refl _) ends_nil
  rw [List.append_nil] at h
  rw [read?, h]

mutual
theorem line_normal : (v : Value) → v.normal.line = v.line
  | .unset | .null | .bool _ | .string _ => rfl
  | .number x => x.text_normal
  | .list vs => by rw [normal, line, line, lineList_normalList vs]
  | .record es => by rw [normal, line, line, lineEntries_normalEntries es]

theorem lineList_normalList : (vs : List Value) → lineList (normalList vs) = lineList vs
  | [] => rfl
  | [v] => line_normal v
  | v :: w :: vs => by
    have hrest := lineList_normalList (w :: vs)
    rw [normalList] at hrest ⊢
    rw [normalList, lineList, lineList, line_normal v, hrest]

theorem lineEntries_normalEntries :
    (es : List (Text × Value)) → lineEntries (normalEntries es) = lineEntries es
  | [] => rfl
  | [(k, v)] => by rw [normalEntries, normalEntries, lineEntries, lineEntries, line_normal v]
  | (k, v) :: (l, w) :: es => by
    have hrest := lineEntries_normalEntries ((l, w) :: es)
    rw [normalEntries] at hrest ⊢
    rw [normalEntries, lineEntries, lineEntries, line_normal v, hrest]
end

/-- Values with one dump, at whatever widths, are the same but for what the text does not tell, and
values that are the same but for that have one text. -/
theorem dump_unambiguous (v w : Value) :
    (∀ width width', v.dump width = w.dump width' → v.normal = w.normal) ∧
      (v.normal = w.normal → v.line = w.line) := by
  constructor
  · intro width width' h
    have hline : v.line = w.line := by
      rw [← unbreak_dump width v, h, unbreak_dump width' w]
    have hread := read?_line v
    rw [hline, read?_line w] at hread
    exact (Option.some.inj hread).symm
  · intro h
    rw [← line_normal v, h, line_normal w]

end QueryConsole.Value
