import Mathlib.Data.List.Induction
import QueryConsole.Proofs.Text
import QueryConsole.Value.Basic

set_option autoImplicit false

namespace QueryConsole

namespace Record

/-- An entry that no later entry of the same key replaces. -/
def Counts (entries : List (Text × Value)) (k : Text) (v : Value) : Prop :=
  ∃ before after, entries = before ++ (k, v) :: after ∧ k ∉ keys after

def Ordered (r : Record) : Prop := r.Pairwise fun e f => e.1 < f.1

theorem mem_keys_iff {entries : List (Text × Value)} {k : Text} :
    k ∈ keys entries ↔ ∃ v, (k, v) ∈ entries := by
  simp [keys]

theorem get?_cons (k l : Text) (v : Value) (r : Record) :
    get? ((k, v) :: r) l = if l = k then some v else r.get? l := by
  rw [get?, get?, List.lookup_cons]
  by_cases h : l = k
  · rw [if_pos h, beq_iff_eq.mpr h]
  · rw [if_neg h, beq_eq_false_iff_ne.mpr h]

theorem get?_eq_none_iff {r : Record} {k : Text} : r.get? k = none ↔ k ∉ keys r := by
  rw [get?, List.lookup_eq_none_iff, mem_keys_iff]
  simp only [bne_iff_ne, ne_eq, Prod.forall]
  constructor
  · rintro h ⟨v, hv⟩
    exact h k v hv rfl
  · rintro h l v hv rfl
    exact h ⟨v, hv⟩

theorem eq_or_mem_of_mem_insert {k : Text} {v : Value} {r : Record} {e : Text × Value}
    (h : e ∈ insert k v r) : e = (k, v) ∨ e ∈ r := by
  induction r with
  | nil => exact .inl (List.mem_singleton.mp h)
  | cons f r ih =>
    obtain ⟨l, w⟩ := f
    rw [insert] at h
    split at h
    · exact List.mem_cons.mp h
    split at h
    · exact (List.mem_cons.mp h).imp_right (List.mem_cons_of_mem _)
    · rcases List.mem_cons.mp h with rfl | h
      · exact .inr List.mem_cons_self
      · exact (ih h).imp_right (List.mem_cons_of_mem _)

theorem Ordered.insert {k : Text} {v : Value} {r : Record} (h : r.Ordered) :
    Ordered (insert k v r) := by
  induction r with
  | nil => exact List.pairwise_singleton _ _
  | cons f r ih =>
    obtain ⟨l, w⟩ := f
    obtain ⟨hfirst, hrest⟩ := List.pairwise_cons.mp h
    rw [Record.insert]
    split
    · rename_i hlt
      refine List.pairwise_cons.mpr ⟨fun e he => ?_, h⟩
      rcases List.mem_cons.mp he with rfl | he
      · exact hlt
      · exact List.lt_trans hlt (hfirst e he)
    split
    · rename_i heq
      subst heq
      exact List.pairwise_cons.mpr ⟨hfirst, hrest⟩
    · rename_i hlt hne
      have hgt : l < k := lt_of_not_lt_of_ne hlt hne
      refine List.pairwise_cons.mpr ⟨fun e he => ?_, ih hrest⟩
      rcases eq_or_mem_of_mem_insert he with rfl | he
      · exact hgt
      · exact hfirst e he

theorem get?_insert (k l : Text) (v : Value) (r : Record) :
    (insert k v r).get? l = if l = k then some v else r.get? l := by
  induction r with
  | nil => exact get?_cons k l v []
  | cons f r ih =>
    obtain ⟨m, w⟩ := f
    rw [insert, get?_cons]
    split
    · rw [get?_cons, get?_cons]
    split
    · rename_i heq
      subst heq
      rw [get?_cons]
      split <;> rfl
    · rename_i hne
      rw [get?_cons, ih]
      by_cases hm : l = m
      · subst hm
        rw [if_pos rfl, if_neg (Ne.symm hne), if_pos rfl]
      · rw [if_neg hm, if_neg hm]

theorem ofList_concat (entries : List (Text × Value)) (e : Text × Value) :
    ofList (entries ++ [e]) = insert e.1 e.2 (ofList entries) := by
  simp [ofList]

theorem ordered_ofList (entries : List (Text × Value)) : (ofList entries).Ordered := by
  induction entries using List.reverseRecOn with
  | nil => exact List.Pairwise.nil
  | append_singleton entries e ih =>
    rw [ofList_concat]
    exact ih.insert

theorem get?_ofList (entries : List (Text × Value)) (k : Text) :
    (ofList entries).get? k = get? entries.reverse k := by
  induction entries using List.reverseRecOn with
  | nil => rfl
  | append_singleton entries e ih =>
    obtain ⟨l, v⟩ := e
    rw [ofList_concat, get?_insert, ih, List.reverse_concat, get?_cons]

theorem get?_reverse_eq_some_iff {entries : List (Text × Value)} {k : Text} {v : Value} :
    get? entries.reverse k = some v ↔ Counts entries k v := by
  rw [get?, List.lookup_eq_some_iff]
  constructor
  · rintro ⟨after, before, heq, hafter⟩
    refine ⟨before.reverse, after.reverse, ?_, ?_⟩
    · rw [← List.reverse_reverse entries, heq]
      simp
    · rw [mem_keys_iff]
      rintro ⟨w, hw⟩
      simpa using hafter (k, w) (List.mem_reverse.mp hw)
  · rintro ⟨before, after, rfl, hafter⟩
    refine ⟨after.reverse, before.reverse, by simp, ?_⟩
    rintro ⟨l, w⟩ hw
    simp only [bne_iff_ne, ne_eq]
    rintro rfl
    exact hafter (mem_keys_iff.mpr ⟨w, List.mem_reverse.mp hw⟩)

theorem get?_ofList_eq_some_iff {entries : List (Text × Value)} {k : Text} {v : Value} :
    (ofList entries).get? k = some v ↔ Counts entries k v := by
  rw [get?_ofList, get?_reverse_eq_some_iff]

theorem Ordered.nodup {r : Record} (h : r.Ordered) : r.Nodup := by
  refine List.Pairwise.imp (fun {e f} hlt heq => ?_) h
  subst heq
  exact List.lt_irrefl _ hlt

theorem Ordered.mem_iff {r : Record} (h : r.Ordered) {k : Text} {v : Value} :
    (k, v) ∈ r ↔ r.get? k = some v := by
  induction r with
  | nil => simp [get?]
  | cons f r ih =>
    obtain ⟨l, w⟩ := f
    obtain ⟨hfirst, hrest⟩ := List.pairwise_cons.mp h
    rw [get?_cons, List.mem_cons, Prod.mk.injEq, ih hrest]
    by_cases hk : k = l
    · subst hk
      have hmem : ∀ u, (k, u) ∉ r := fun u hmem => List.lt_irrefl _ (hfirst (k, u) hmem)
      simp [← ih hrest, hmem, eq_comm]
    · simp [hk]

theorem Ordered.ext {r s : Record} (hr : r.Ordered) (hs : s.Ordered)
    (h : ∀ k v, r.get? k = some v ↔ s.get? k = some v) : r = s := by
  have hperm : r.Perm s := by
    rw [List.perm_ext_iff_of_nodup hr.nodup hs.nodup]
    rintro ⟨k, v⟩
    rw [hr.mem_iff, hs.mem_iff, h]
  refine hperm.eq_of_pairwise (fun e f _ _ hlt hgt => ?_) hr hs
  exact absurd hgt (List.lt_asymm hlt)

theorem mem_ofList_iff {entries : List (Text × Value)} {k : Text} {v : Value} :
    (k, v) ∈ ofList entries ↔ Counts entries k v := by
  rw [(ordered_ofList entries).mem_iff, get?_ofList_eq_some_iff]

theorem ofList_congr {entries others : List (Text × Value)}
    (h : ∀ k v, Counts entries k v ↔ Counts others k v) : ofList entries = ofList others := by
  refine (ordered_ofList entries).ext (ordered_ofList others) fun k v => ?_
  rw [get?_ofList_eq_some_iff, get?_ofList_eq_some_iff, h]

theorem Counts.mem {entries : List (Text × Value)} {k : Text} {v : Value}
    (h : Counts entries k v) : (k, v) ∈ entries := by
  obtain ⟨before, after, rfl, -⟩ := h
  exact List.mem_append_right before List.mem_cons_self

theorem counts_iff_mem {entries : List (Text × Value)} (h : (keys entries).Nodup) {k : Text}
    {v : Value} : Counts entries k v ↔ (k, v) ∈ entries := by
  constructor
  · exact Counts.mem
  · intro hmem
    obtain ⟨before, after, rfl⟩ := List.append_of_mem hmem
    refine ⟨before, after, rfl, ?_⟩
    simp only [keys, List.map_append, List.map_cons] at h
    exact (List.nodup_cons.mp (List.nodup_append.mp h).2.1).1

theorem ofList_eq_of_perm {entries others : List (Text × Value)} (h : entries.Perm others)
    (hkeys : (keys entries).Nodup) : ofList entries = ofList others := by
  refine ofList_congr fun k v => ?_
  rw [counts_iff_mem hkeys, counts_iff_mem ((h.map Prod.fst).nodup_iff.mp hkeys), h.mem_iff]

/-- An entry that is replaced later might as well not be there. -/
theorem ofList_overridden {before after : List (Text × Value)} {k : Text} (v : Value)
    (h : k ∈ keys after) :
    ofList (before ++ (k, v) :: after) = ofList (before ++ after) := by
  refine ofList_congr fun l w => ?_
  simp only [← get?_reverse_eq_some_iff, get?, List.reverse_append, List.reverse_cons,
    List.append_assoc, List.lookup_append]
  by_cases hl : l = k
  · subst hl
    have hsome : get? after.reverse l ≠ none := by
      rw [ne_eq, get?_eq_none_iff, Classical.not_not]
      simpa [keys] using h
    obtain ⟨u, hu⟩ := Option.ne_none_iff_exists'.mp hsome
    rw [get?] at hu
    rw [hu]
    rfl
  · have hnone : List.lookup l [(k, v)] = none := get?_eq_none_iff.mpr (by simp [keys, hl])
    rw [hnone, Option.none_or]

theorem exists_counts_iff {entries : List (Text × Value)} {k : Text} :
    (∃ v, Counts entries k v) ↔ k ∈ keys entries := by
  rw [mem_keys_iff]
  constructor
  · rintro ⟨v, hv⟩
    exact ⟨v, hv.mem⟩
  · intro h
    cases hget : get? entries.reverse k with
    | none =>
      rw [get?_eq_none_iff] at hget
      exact absurd (by simpa [keys, mem_keys_iff] using h) hget
    | some w => exact ⟨w, get?_reverse_eq_some_iff.mp hget⟩

theorem mem_keys_ofList {entries : List (Text × Value)} {k : Text} :
    k ∈ keys (ofList entries) ↔ k ∈ keys entries := by
  rw [mem_keys_iff]
  simp only [mem_ofList_iff, exists_counts_iff]

end Record

end QueryConsole
