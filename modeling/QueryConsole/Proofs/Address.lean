import QueryConsole.Address.Basic
import QueryConsole.Proofs.Numeral

set_option autoImplicit false

namespace QueryConsole

namespace Transport

theorem read?_text (t : Transport) : read? t.text = some t := by
  cases t <;> decide

theorem colon_not_mem_text (t : Transport) : ':' ∉ t.text := by
  cases t <;> decide

theorem not_opensBracket_text (t : Transport) (u : Text) :
    ¬ Address.opensBracket (t.text ++ ':' :: u) := by
  cases t <;> simp [Address.opensBracket, text]

theorem exists_text_iff (t : Text) : (∃ u : Transport, u.text = t) ↔ t = [] ∨ t = "tcp".toList := by
  constructor
  · intro h
    obtain ⟨u, hu⟩ := h
    cases u with
    | unstated => exact .inl hu.symm
    | tcp => exact .inr hu.symm
  · intro h
    obtain h | h := h
    · exact ⟨.unstated, h.symm⟩
    · exact ⟨.tcp, h.symm⟩

end Transport

namespace Address

structure WellFormed (a : Address) : Prop where
  named : a.service ≠ []
  plain : '@' ∉ a.service
  closed : opensBracket a.host → closesBracket a.host

theorem closed_of_readHost {whole t host : Text} {transport : Transport}
    (h : readHost whole t = .ok (transport, host)) : opensBracket host → closesBracket host := by
  intro hopens
  rw [readHost] at h
  by_cases ht : opensBracket t
  · rw [if_pos ht] at h
    by_cases hcloses : closesBracket t
    · rw [if_pos hcloses, Except.ok.injEq, Prod.mk.injEq] at h
      rw [← h.2]
      exact hcloses
    · simp [hcloses] at h
  · rw [if_neg ht] at h
    cases hsplit : splitFirst ':' t with
    | none =>
      simp only [hsplit, Except.ok.injEq, Prod.mk.injEq] at h
      rw [← h.2] at hopens
      exact absurd hopens ht
    | some parts =>
      obtain ⟨front, back⟩ := parts
      simp only [hsplit] at h
      by_cases hunclosed : opensBracket back ∧ ¬ closesBracket back
      · simp [hunclosed] at h
      · rw [if_neg hunclosed] at h
        cases hread : Transport.read? front with
        | none => simp [hread] at h
        | some transport' =>
          simp only [hread, Except.ok.injEq, Prod.mk.injEq] at h
          rw [h.2] at hunclosed
          exact Decidable.byContradiction fun hcloses => hunclosed ⟨hopens, hcloses⟩

theorem wellFormed_of_read {s : Text} {a : Address} (h : read s = .ok a) : a.WellFormed := by
  rw [read] at h
  cases hsplit : splitFirst '@' s with
  | none => simp [hsplit] at h
  | some parts =>
    obtain ⟨service, endpoint⟩ := parts
    have hplain : '@' ∉ service := (splitFirst_eq_some_iff.mp hsplit).2
    cases service with
    | nil => simp [hsplit] at h
    | cons c service =>
      simp only [hsplit] at h
      cases hport : splitLast ':' endpoint with
      | none => simp [hport] at h
      | some ends =>
        obtain ⟨rest, port⟩ := ends
        simp only [hport] at h
        cases hnumber : Numeral.readPort port with
        | error fault => simp [hnumber] at h
        | ok number =>
          simp only [hnumber] at h
          cases hhost : readHost s rest with
          | error fault => simp [hhost] at h
          | ok found =>
            obtain ⟨transport, host⟩ := found
            simp only [hhost, Except.ok.injEq] at h
            subst h
            exact ⟨List.cons_ne_nil c service, hplain, closed_of_readHost hhost⟩

theorem readHost_text (whole : Text) (transport : Transport) {host : Text}
    (h : opensBracket host → closesBracket host) :
    readHost whole (transport.text ++ ':' :: host) = .ok (transport, host) := by
  have hclosed : ¬ (opensBracket host ∧ ¬ closesBracket host) := fun hc => hc.2 (h hc.1)
  rw [readHost, if_neg (transport.not_opensBracket_text host),
    splitFirst_append host transport.colon_not_mem_text]
  simp only [if_neg hclosed, transport.read?_text]

theorem colon_not_mem_ofNat (n : Nat) : ':' ∉ Numeral.ofNat n := by
  intro h
  have hdigit := Numeral.isDigit_of_mem_ofNat h
  revert hdigit
  decide

theorem text_eq (a : Address) :
    a.text = a.service ++
      '@' :: ((a.transport.text ++ ':' :: a.host) ++ ':' :: Numeral.ofNat a.port.toNat) := by
  simp [text]

theorem read_text {a : Address} (h : a.WellFormed) : read a.text = .ok a := by
  have hservice := splitFirst_append
    ((a.transport.text ++ ':' :: a.host) ++ ':' :: Numeral.ofNat a.port.toNat) h.plain
  have hport := splitLast_append (a.transport.text ++ ':' :: a.host)
    (colon_not_mem_ofNat a.port.toNat)
  rw [← text_eq] at hservice
  rw [read, hservice]
  cases hnamed : a.service with
  | nil => exact absurd hnamed h.named
  | cons c service =>
    simp only [hport, Numeral.readPort_ofNat, readHost_text a.text a.transport h.closed]
    rw [← hnamed]

theorem wellFormed_standard : standard.WellFormed where
  named := by decide
  plain := by decide
  closed := by decide

theorem exists_read_iff (service transport host : Text) (port : Nat) :
    (∃ s a, read s = .ok a ∧ a.service = service ∧ a.transport.text = transport ∧
      a.host = host ∧ a.port.toNat = port) ↔
    service ≠ [] ∧ '@' ∉ service ∧ (transport = [] ∨ transport = "tcp".toList) ∧
      port ≤ 65535 ∧ (opensBracket host → closesBracket host) := by
  constructor
  · intro h
    obtain ⟨s, a, hread, hservice, htransport, hhost, hport⟩ := h
    have hform := wellFormed_of_read hread
    subst hservice hhost hport
    refine ⟨hform.named, hform.plain, (Transport.exists_text_iff transport).mp ⟨_, htransport⟩,
      ?_, hform.closed⟩
    have hlt := a.port.toNat_lt
    omega
  · intro h
    obtain ⟨hnamed, hplain, htransport, hport, hclosed⟩ := h
    obtain ⟨t, ht⟩ := (Transport.exists_text_iff transport).mpr htransport
    have hread := read_text (a := ⟨service, t, host, UInt16.ofNat port⟩) ⟨hnamed, hplain, hclosed⟩
    refine ⟨_, _, hread, rfl, ht, rfl, ?_⟩
    exact UInt16.toNat_ofNat_of_lt (Nat.lt_succ_of_le hport)

/-- The texts of the addresses that can be read are their canonical forms. -/
theorem text_canonical :
    (∀ s a, read s = .ok a → read a.text = .ok a) ∧
    read standard.text = .ok standard ∧
    (∀ (service transport host : Text) (port : Nat),
      (∃ s a, read s = .ok a ∧ a.service = service ∧ a.transport.text = transport ∧
        a.host = host ∧ a.port.toNat = port) ↔
      service ≠ [] ∧ '@' ∉ service ∧ (transport = [] ∨ transport = "tcp".toList) ∧
        port ≤ 65535 ∧ (opensBracket host → closesBracket host)) ∧
    ∀ s t a b, read s = .ok a → read t = .ok b → (a = b ↔ a.text = b.text) := by
  refine ⟨fun s a h => read_text (wellFormed_of_read h), read_text wellFormed_standard,
    exists_read_iff, fun s t a b ha hb => ?_⟩
  constructor
  · intro h
    rw [h]
  · intro h
    have haa := read_text (wellFormed_of_read ha)
    have hbb := read_text (wellFormed_of_read hb)
    rw [h, hbb, Except.ok.injEq] at haa
    exact haa.symm

end Address

end QueryConsole
