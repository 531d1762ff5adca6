import QueryConsole.Proofs.Address

/-!
The texts that are addresses, and what is wrong with the others. The grammar says how a text is made
up of its parts, without a word on how they are found; reading a text gives what the grammar says of
it and nothing else, so that each text has exactly one outcome.
-/

set_option autoImplicit false

namespace QueryConsole

theorem Transport.read?_eq_some_iff {t : Text} {u : Transport} : read? t = some u ↔ u.text = t := by
  constructor
  · intro h
    by_cases hunstated : t = Transport.unstated.text
    · rw [read?, if_pos hunstated, Option.some.injEq] at h
      rw [← h, hunstated]
    · by_cases htcp : t = Transport.tcp.text
      · rw [read?, if_neg hunstated, if_pos htcp, Option.some.injEq] at h
        rw [← h, htcp]
      · simp [read?, hunstated, htcp] at h
  · intro h
    rw [← h]
    exact read?_text u

theorem Transport.read?_eq_none_iff {t : Text} : read? t = none ↔ t ≠ [] ∧ t ≠ "tcp".toList := by
  have hsome : (∃ u, read? t = some u) ↔ t = [] ∨ t = "tcp".toList := by
    rw [← exists_text_iff t]
    exact exists_congr fun u => read?_eq_some_iff
  rw [← not_or, ← hsome, Option.eq_none_iff_forall_ne_some, not_exists]

namespace Address

structure Named (s service endpoint : Text) : Prop where
  eq : s = service ++ '@' :: endpoint
  nonempty : service ≠ []
  plain : '@' ∉ service

def PortNumeral (t : Text) (port : Nat) : Prop :=
  ∃ digits, Numeral.Unsigned t digits ∧ Numeral.value digits = port ∧ port ≤ 65535

def Ported (s service rest : Text) (port : Nat) : Prop :=
  ∃ numeral, Named s service (rest ++ ':' :: numeral) ∧ ':' ∉ numeral ∧ PortNumeral numeral port

/-- The transport and the host in the text before the port. A bracket at the very start opens a host
that has no transport before it. -/
inductive Parts : Text → Text → Text → Prop where
  | bracketed {rest : Text} : opensBracket rest → Parts rest [] rest
  | stated {transport host : Text} :
      ¬ opensBracket (transport ++ ':' :: host) → ':' ∉ transport →
      Parts (transport ++ ':' :: host) transport host
  | bare {rest : Text} : ¬ opensBracket rest → ':' ∉ rest → Parts rest [] rest

/-- How a text reads as an address, or what the first thing wrong with it is. -/
inductive Reading (s : Text) : Except AddressFault Address → Prop where
  | missingSeparator : '@' ∉ s → Reading s (.error (.missingSeparator s))
  | emptyService {endpoint : Text} : s = '@' :: endpoint → Reading s (.error (.emptyService s))
  | missingPort {service endpoint : Text} :
      Named s service endpoint → ':' ∉ endpoint → Reading s (.error (.invalidPort s))
  | invalidPort {service rest port : Text} :
      Named s service (rest ++ ':' :: port) → ':' ∉ port → (¬ ∃ n, PortNumeral port n) →
      Reading s (.error (.invalidPort s))
  | unterminatedHost {service rest transport host : Text} {port : Nat} :
      Ported s service rest port → Parts rest transport host →
      opensBracket host → ¬ closesBracket host → Reading s (.error (.unterminatedHost s))
  | unsupportedTransport {service rest transport host : Text} {port : Nat} :
      Ported s service rest port → Parts rest transport host →
      (opensBracket host → closesBracket host) → transport ≠ [] → transport ≠ "tcp".toList →
      Reading s (.error (.unsupportedTransport transport))
  | address {a : Address} {rest : Text} :
      Ported s a.service rest a.port.toNat → Parts rest a.transport.text a.host →
      (opensBracket a.host → closesBracket a.host) → Reading s (.ok a)

theorem exists_parts (rest : Text) : ∃ transport host, Parts rest transport host := by
  by_cases hopens : opensBracket rest
  · exact ⟨[], rest, .bracketed hopens⟩
  · cases hsplit : splitFirst ':' rest with
    | none => exact ⟨[], rest, .bare hopens (splitFirst_eq_none_iff.mp hsplit)⟩
    | some parts =>
      obtain ⟨transport, host⟩ := parts
      obtain ⟨hrest, hplain⟩ := splitFirst_eq_some_iff.mp hsplit
      subst hrest
      exact ⟨transport, host, .stated hopens hplain⟩

theorem readHost_of_parts {whole rest transport host : Text} (h : Parts rest transport host) :
    readHost whole rest =
      if opensBracket host ∧ ¬ closesBracket host then .error (.unterminatedHost whole)
      else (Transport.read? transport).elim (.error (.unsupportedTransport transport))
        fun t => .ok (t, host) := by
  have hunstated : Transport.read? [] = some .unstated := rfl
  cases h with
  | bracketed hopens =>
    by_cases hcloses : closesBracket rest
    · simp [readHost, hopens, hcloses, hunstated]
    · simp [readHost, hopens, hcloses]
  | stated hopens hplain =>
    simp only [readHost, if_neg hopens, splitFirst_append host hplain]
    cases Transport.read? transport <;> rfl
  | bare hopens hplain =>
    simp [readHost, hopens, splitFirst_eq_none_iff.mpr hplain, hunstated]

theorem readPort_eq_ok_iff {t : Text} {port : UInt16} :
    Numeral.readPort t = .ok port ↔ PortNumeral t port.toNat := by
  have hport : port.toNat ≤ 65535 := Nat.le_of_lt_succ port.toNat_lt
  rw [Numeral.readPort_eq_ok_iff]
  exact exists_congr fun digits => by simp [hport]

theorem PortNumeral.exists_port {t : Text} {n : Nat} (h : PortNumeral t n) :
    ∃ port : UInt16, port.toNat = n := by
  obtain ⟨digits, -, -, hle⟩ := h
  exact ⟨UInt16.ofNat n, UInt16.toNat_ofNat_of_lt' (Nat.lt_succ_of_le hle)⟩

theorem exists_readPort_iff {t : Text} :
    (∃ port, Numeral.readPort t = .ok port) ↔ ∃ n, PortNumeral t n := by
  constructor
  · intro h
    obtain ⟨port, hport⟩ := h
    exact ⟨port.toNat, readPort_eq_ok_iff.mp hport⟩
  · intro h
    obtain ⟨n, hn⟩ := h
    obtain ⟨port, rfl⟩ := hn.exists_port
    exact ⟨port, readPort_eq_ok_iff.mpr hn⟩

theorem read_of_portless {s service endpoint : Text} (h : Named s service endpoint)
    (hcolon : ':' ∉ endpoint) : read s = .error (.invalidPort s) := by
  have hsplit : splitFirst '@' s = some (service, endpoint) :=
    splitFirst_eq_some_iff.mpr ⟨h.eq, h.plain⟩
  cases service with
  | nil => exact absurd rfl h.nonempty
  | cons c service => simp only [read, hsplit, splitLast_eq_none_iff.mpr hcolon]

theorem read_of_numbered {s service rest numeral : Text}
    (h : Named s service (rest ++ ':' :: numeral)) (hcolon : ':' ∉ numeral) :
    read s = ((Numeral.readPort numeral).mapError fun _ => .invalidPort s).bind fun port =>
      (readHost s rest).map fun parts => ⟨service, parts.1, parts.2, port⟩ := by
  have hsplit : splitFirst '@' s = some (service, rest ++ ':' :: numeral) :=
    splitFirst_eq_some_iff.mpr ⟨h.eq, h.plain⟩
  cases service with
  | nil => exact absurd rfl h.nonempty
  | cons c service =>
    simp only [read, hsplit, splitLast_append rest hcolon]
    cases Numeral.readPort numeral with
    | error fault => rfl
    | ok port =>
      cases readHost s rest with
      | error fault => rfl
      | ok parts => rfl

theorem read_of_ported {s service rest : Text} {port : UInt16}
    (h : Ported s service rest port.toNat) :
    read s = (readHost s rest).map fun parts => ⟨service, parts.1, parts.2, port⟩ := by
  obtain ⟨numeral, hnamed, hcolon, hport⟩ := h
  rw [read_of_numbered hnamed hcolon, readPort_eq_ok_iff.mpr hport]
  rfl

theorem Ported.exists_port {s service rest : Text} {port : Nat} (h : Ported s service rest port) :
    ∃ p : UInt16, p.toNat = port := by
  obtain ⟨numeral, -, -, hport⟩ := h
  exact hport.exists_port

theorem read_of_reading {s : Text} {outcome : Except AddressFault Address}
    (h : Reading s outcome) : read s = outcome := by
  cases h with
  | missingSeparator hplain => rw [read, splitFirst_eq_none_iff.mpr hplain]
  | emptyService hs =>
    rw [hs]
    rfl
  | missingPort hnamed hcolon => exact read_of_portless hnamed hcolon
  | @invalidPort service rest port hnamed hcolon hnone =>
    rw [read_of_numbered hnamed hcolon]
    cases hport : Numeral.readPort port with
    | error fault => rfl
    | ok number => exact absurd (exists_readPort_iff.mp ⟨number, hport⟩) hnone
  | unterminatedHost hported hparts hopens hcloses =>
    obtain ⟨p, hp⟩ := hported.exists_port
    subst hp
    rw [read_of_ported hported, readHost_of_parts hparts, if_pos ⟨hopens, hcloses⟩]
    rfl
  | unsupportedTransport hported hparts hclosed hstated htcp =>
    obtain ⟨p, hp⟩ := hported.exists_port
    subst hp
    rw [read_of_ported hported, readHost_of_parts hparts, if_neg fun hc => hc.2 (hclosed hc.1),
      Transport.read?_eq_none_iff.mpr ⟨hstated, htcp⟩]
    rfl
  | @address a rest hported hparts hclosed =>
    rw [read_of_ported hported, readHost_of_parts hparts, if_neg fun hc => hc.2 (hclosed hc.1),
      Transport.read?_text]
    rfl

theorem exists_reading_of_ported {s service rest : Text} {port : UInt16}
    (h : Ported s service rest port.toNat) : ∃ outcome, Reading s outcome := by
  obtain ⟨transport, host, hparts⟩ := exists_parts rest
  by_cases hunclosed : opensBracket host ∧ ¬ closesBracket host
  · exact ⟨_, .unterminatedHost h hparts hunclosed.1 hunclosed.2⟩
  · have hclosed : opensBracket host → closesBracket host := fun hopens =>
      Decidable.byContradiction fun hcloses => hunclosed ⟨hopens, hcloses⟩
    cases hread : Transport.read? transport with
    | none =>
      obtain ⟨hstated, htcp⟩ := Transport.read?_eq_none_iff.mp hread
      exact ⟨_, .unsupportedTransport h hparts hclosed hstated htcp⟩
    | some t =>
      have ht := Transport.read?_eq_some_iff.mp hread
      subst ht
      exact ⟨.ok ⟨service, t, host, port⟩, .address h hparts hclosed⟩

theorem exists_reading (s : Text) : ∃ outcome, Reading s outcome := by
  cases hat : splitFirst '@' s with
  | none => exact ⟨_, .missingSeparator (splitFirst_eq_none_iff.mp hat)⟩
  | some parts =>
    obtain ⟨service, endpoint⟩ := parts
    obtain ⟨hs, hplain⟩ := splitFirst_eq_some_iff.mp hat
    by_cases hempty : service = []
    · subst hempty
      exact ⟨_, .emptyService hs⟩
    · have hnamed : Named s service endpoint := ⟨hs, hempty, hplain⟩
      cases hcolon : splitLast ':' endpoint with
      | none => exact ⟨_, .missingPort hnamed (splitLast_eq_none_iff.mp hcolon)⟩
      | some ends =>
        obtain ⟨rest, numeral⟩ := ends
        obtain ⟨hendpoint, hlast⟩ := splitLast_eq_some_iff.mp hcolon
        subst hendpoint
        by_cases hport : ∃ n, PortNumeral numeral n
        · obtain ⟨port, hread⟩ := exists_readPort_iff.mpr hport
          have hported : Ported s service rest port.toNat :=
            ⟨numeral, hnamed, hlast, readPort_eq_ok_iff.mp hread⟩
          exact exists_reading_of_ported hported
        · exact ⟨_, .invalidPort hnamed hlast hport⟩

/-- A text is read as the grammar says, be it as an address or as one of the faults. -/
theorem read_eq_iff_reading (s : Text) (outcome : Except AddressFault Address) :
    read s = outcome ↔ Reading s outcome := by
  constructor
  · intro h
    obtain ⟨found, hfound⟩ := exists_reading s
    rw [← h, read_of_reading hfound]
    exact hfound
  · exact read_of_reading

end Address

end QueryConsole
