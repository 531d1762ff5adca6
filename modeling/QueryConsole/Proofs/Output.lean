import QueryConsole.Output

set_option autoImplicit false

namespace QueryConsole

namespace Sink

def Fits (s : Sink) (count : Nat) : Prop := ∀ room, s.room = some room → count ≤ room

theorem fits_of_unlimited {s : Sink} (h : s.room = none) (count : Nat) : s.Fits count := by
  intro room hroom
  simp [h] at hroom

theorem fits_iff {s : Sink} {room : Nat} (h : s.room = some room) (count : Nat) :
    s.Fits count ↔ count ≤ room := by
  simp [Fits, h]

theorem hold_nil (s : Sink) : s.hold [] = s := by
  obtain ⟨pace, room, written, flushedAt⟩ := s
  cases room <;> simp [hold]

theorem hold_hold (s : Sink) (a b : List UInt8) : (s.hold a).hold b = s.hold (a ++ b) := by
  obtain ⟨pace, room, written, flushedAt⟩ := s
  cases room with
  | none => simp [hold]
  | some n => simp [hold, Nat.sub_sub]

theorem fits_hold {s : Sink} {a : List UInt8} {count : Nat} (h : s.Fits (a.length + count)) :
    (s.hold a).Fits count := by
  intro room hroom
  cases hs : s.room with
  | none => simp [hold, hs] at hroom
  | some n =>
    have hn := h n hs
    simp only [hold, hs, Option.map_some, Option.some.injEq] at hroom
    omega

theorem taken_eq_zero_iff {s : Sink} {offered : Nat} (h : 0 < offered) :
    s.taken offered = 0 ↔ s.room = some 0 := by
  have hshare := s.pace.share_pos s.written.length offered h
  cases hroom : s.room with
  | none =>
    simp only [taken, hroom, Option.getD_none, reduceCtorEq, iff_false]
    omega
  | some n =>
    simp only [taken, hroom, Option.getD_some, Option.some.injEq]
    omega

theorem taken_le_room {s : Sink} {offered room : Nat} (h : s.room = some room) :
    s.taken offered ≤ room := by
  simp only [taken, h, Option.getD_some]
  omega

@[simp] theorem write_nil (s : Sink) : s.write [] = .ok s := by
  rw [write, if_pos rfl]

theorem write_step {s : Sink} {bytes : List UInt8} (h : 0 < s.taken bytes.length) :
    s.write bytes =
      (s.hold (bytes.take (s.taken bytes.length))).write (bytes.drop (s.taken bytes.length)) := by
  have hne : bytes ≠ [] := by
    intro hnil
    have hle := s.taken_le bytes.length
    simp only [hnil, List.length_nil] at h hle
    omega
  rw [write, if_neg hne, if_neg (by omega)]

theorem write_of_fits {s : Sink} {bytes : List UInt8} (h : s.Fits bytes.length) :
    s.write bytes = .ok (s.hold bytes) := by
  -- The induction is on what remains to be offered, which each offer makes shorter.
  induction hlength : bytes.length using Nat.strongRecOn generalizing s bytes with
  | ind length ih =>
    by_cases hnil : bytes = []
    · rw [hnil, write_nil, hold_nil]
    · have hpos : 0 < bytes.length := List.length_pos_iff.mpr hnil
      have hsome : 0 < s.taken bytes.length := by
        have hroom : ¬ s.taken bytes.length = 0 := by
          intro hzero
          have hn := h 0 ((taken_eq_zero_iff hpos).mp hzero)
          omega
        omega
      have hle := s.taken_le bytes.length
      have hrest : (s.hold (bytes.take (s.taken bytes.length))).Fits
          (bytes.drop (s.taken bytes.length)).length := by
        apply fits_hold
        rw [List.length_take, List.length_drop, Nat.min_eq_left hle]
        have hall : s.taken bytes.length + (bytes.length - s.taken bytes.length) =
            bytes.length := by omega
        rw [hall]
        exact h
      rw [write_step hsome,
        ih _ (by rw [List.length_drop]; omega) hrest rfl, hold_hold, List.take_append_drop]

theorem write_of_full {s : Sink} {bytes : List UInt8} {room : Nat} (hroom : s.room = some room)
    (h : room < bytes.length) : s.write bytes = .error ⟨s.hold (bytes.take room)⟩ := by
  induction hlength : bytes.length using Nat.strongRecOn generalizing s bytes room with
  | ind length ih =>
    have hpos : 0 < bytes.length := by omega
    have hnil : bytes ≠ [] := List.length_pos_iff.mp hpos
    by_cases hzero : s.taken bytes.length = 0
    · have hempty := (taken_eq_zero_iff hpos).mp hzero
      rw [hroom, Option.some.injEq] at hempty
      rw [write, if_neg hnil, if_pos hzero, hempty, List.take_zero, hold_nil]
    · have hle : s.taken bytes.length ≤ room := taken_le_room hroom
      generalize htaken : s.taken bytes.length = taken at hzero hle
      have hleft : (s.hold (bytes.take taken)).room = some (room - taken) := by
        simp only [hold, hroom, Option.map_some, List.length_take, Option.some.injEq]
        omega
      have hmore : room - taken < (bytes.drop taken).length := by
        rw [List.length_drop]
        omega
      rw [write_step (by omega), htaken,
        ih _ (by rw [List.length_drop]; omega) hleft hmore rfl, hold_hold]
      have hfront : bytes.take taken ++ (bytes.drop taken).take (room - taken) =
          bytes.take room := by
        rw [← List.take_add, Nat.add_sub_cancel' hle]
      rw [hfront]

theorem write_append (s : Sink) (a b : List UInt8) :
    s.write (a ++ b) = (s.write a).bind fun t => t.write b := by
  by_cases hall : s.Fits (a ++ b).length
  · rw [List.length_append] at hall
    have hfirst : s.Fits a.length := fun room h => Nat.le_of_add_right_le (hall room h)
    have hsecond : (s.hold a).Fits b.length := fits_hold hall
    rw [write_of_fits (by rwa [List.length_append]), write_of_fits hfirst, Except.bind,
      write_of_fits hsecond, hold_hold]
  · cases hroom : s.room with
    | none => exact absurd (fits_of_unlimited hroom _) hall
    | some room =>
      rw [fits_iff hroom, List.length_append] at hall
      rw [write_of_full hroom (by rw [List.length_append]; omega)]
      by_cases ha : a.length ≤ room
      · have hleft : (s.hold a).room = some (room - a.length) := by
          simp only [hold, hroom, Option.map_some]
        rw [write_of_fits ((fits_iff hroom _).mpr ha), Except.bind,
          write_of_full hleft (by omega), hold_hold, List.take_append, List.take_of_length_le ha]
      · rw [write_of_full hroom (by omega), Except.bind, List.take_append_of_le_length (by omega)]

theorem writeAll_eq_write (s : Sink) (chunks : List Text) :
    s.writeAll chunks = s.write (utf8 chunks.flatten) := by
  induction chunks generalizing s with
  | nil => simp [writeAll, pure, Except.pure]
  | cons chunk chunks ih =>
    have hrest : (fun t : Sink => t.writeAll chunks) = fun t => t.write (utf8 chunks.flatten) :=
      funext fun t => ih t
    rw [List.flatten_cons, utf8_append, write_append, ← hrest]
    rfl

end Sink

theorem flatten_chunks (width : Nat) (outputs : List Output) :
    (outputs.flatMap (·.chunks width)).flatten = renderText width outputs := by
  induction outputs with
  | nil => rfl
  | cons output outputs ih =>
    rw [List.flatMap_cons, List.flatten_append, ih]
    rfl

def renderBytes (width : Nat) (outputs : List Output) : List UInt8 :=
  utf8 (renderText width outputs)

theorem renderBytes_append (width : Nat) (outputs more : List Output) :
    renderBytes width (outputs ++ more) = renderBytes width outputs ++ renderBytes width more := by
  rw [renderBytes, renderText, List.flatMap_append, utf8_append]
  rfl

theorem render_eq_write (width : Nat) (outputs : List Output) (s : Sink) :
    render width outputs s = (s.write (renderBytes width outputs)).map Sink.flush := by
  rw [render, Sink.writeAll_eq_write, flatten_chunks]
  rfl

theorem render_unlimited (width : Nat) (outputs : List Output) (pace : Pace) :
    render width outputs (.fresh pace none) =
      .ok ⟨pace, none, renderBytes width outputs, [(renderBytes width outputs).length]⟩ := by
  rw [render_eq_write, Sink.write_of_fits (Sink.fits_of_unlimited rfl _)]
  rfl

theorem render_limited (width : Nat) (outputs : List Output) (pace : Pace) (room : Nat) :
    render width outputs (.fresh pace (some room)) =
      if (renderBytes width outputs).length ≤ room then
        .ok ⟨pace, some (room - (renderBytes width outputs).length), renderBytes width outputs,
          [(renderBytes width outputs).length]⟩
      else .error ⟨⟨pace, some 0, (renderBytes width outputs).take room, []⟩⟩ := by
  rw [render_eq_write]
  by_cases h : (renderBytes width outputs).length ≤ room
  · rw [Sink.write_of_fits ((Sink.fits_iff rfl _).mpr h), if_pos h]
    rfl
  · have hused : room - ((renderBytes width outputs).take room).length = 0 := by
      rw [List.length_take]
      omega
    rw [Sink.write_of_full rfl (by omega), if_neg h]
    simp only [Except.map, Sink.hold, Sink.fresh, Option.map_some, hused, List.nil_append]

/-- A sink takes all the bytes of the outputs, and is flushed once behind the last of them, or else
the bytes that fit, and is not flushed. -/
theorem render_whole_or_prefix (width : Nat) (outputs more : List Output) (pace : Pace)
    (room : Nat) :
    render width outputs (.fresh pace none) =
      .ok ⟨pace, none, renderBytes width outputs, [(renderBytes width outputs).length]⟩ ∧
    render width outputs (.fresh pace (some room)) =
      (if (renderBytes width outputs).length ≤ room then
        .ok ⟨pace, some (room - (renderBytes width outputs).length), renderBytes width outputs,
          [(renderBytes width outputs).length]⟩
      else .error ⟨⟨pace, some 0, (renderBytes width outputs).take room, []⟩⟩) ∧
    renderBytes width (outputs ++ more) = renderBytes width outputs ++ renderBytes width more :=
  ⟨render_unlimited width outputs pace, render_limited width outputs pace room,
    renderBytes_append width outputs more⟩

end QueryConsole
