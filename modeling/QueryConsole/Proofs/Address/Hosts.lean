import QueryConsole.Proofs.Address.Grammar

set_option autoImplicit false

namespace QueryConsole.Address

inductive DocumentedHost : Text → Prop where
  | plain {host : Text} : ':' ∉ host → '[' ∉ host → ']' ∉ host → DocumentedHost host
  | bracketed {inner : Text} : '[' ∉ inner → ']' ∉ inner → DocumentedHost ('[' :: inner ++ [']'])

/-- The forms of a text that are documented. The transport and its colon may be left out. -/
inductive Documented (s : Text) (a : Address) : Prop where
  | short : a.transport = .unstated → Ported s a.service a.host a.port.toNat →
      DocumentedHost a.host → Documented s a
  | full : Ported s a.service (a.transport.text ++ ':' :: a.host) a.port.toNat →
      DocumentedHost a.host → Documented s a

section Forms

variable {s : Text} {a : Address}

theorem Documented.host (h : Documented s a) : DocumentedHost a.host := by
  cases h with
  | short _ _ hhost => exact hhost
  | full _ hhost => exact hhost

theorem DocumentedHost.closed {host : Text} (h : DocumentedHost host) :
    opensBracket host → closesBracket host := by
  intro hopens
  cases h with
  | plain _ hopen _ => exact absurd (List.mem_of_mem_head? hopens) hopen
  | bracketed => rw [closesBracket, List.getLast?_concat]

theorem DocumentedHost.opensBracket {host : Text} (h : DocumentedHost host) (hcolon : ':' ∈ host) :
    opensBracket host := by
  cases h with
  | plain hplain => exact absurd hcolon hplain
  | bracketed => rfl

theorem DocumentedHost.parts {host : Text} (h : DocumentedHost host) : Parts host [] host := by
  cases h with
  | plain hcolon hopen _ =>
    exact .bare (fun hopens => hopen (List.mem_of_mem_head? hopens)) hcolon
  | bracketed => exact .bracketed rfl

theorem Parts.eq_or_eq {rest transport host : Text} (h : Parts rest transport host) :
    rest = host ∧ transport = [] ∨ rest = transport ++ ':' :: host := by
  cases h with
  | bracketed => exact .inl ⟨rfl, rfl⟩
  | stated => exact .inr rfl
  | bare => exact .inl ⟨rfl, rfl⟩

theorem eq_unstated_of_text_eq_nil {t : Transport} (h : t.text = []) : t = .unstated := by
  cases t with
  | unstated => rfl
  | tcp => exact absurd h (by decide)

theorem read_of_documented (h : Documented s a) : read s = .ok a := by
  cases h with
  | short htransport hported hhost =>
    have hparts : Parts a.host a.transport.text a.host := by
      rw [htransport]
      exact hhost.parts
    exact read_of_reading (.address hported hparts hhost.closed)
  | full hported hhost =>
    have hparts : Parts (a.transport.text ++ ':' :: a.host) a.transport.text a.host :=
      .stated (a.transport.not_opensBracket_text a.host) a.transport.colon_not_mem_text
    exact read_of_reading (.address hported hparts hhost.closed)

theorem documented_of_read (h : read s = .ok a) (hhost : DocumentedHost a.host) :
    Documented s a := by
  obtain ⟨outcome, hreading⟩ := exists_reading s
  rw [read_of_reading hreading] at h
  subst h
  cases hreading with
  | address hported hparts =>
    obtain ⟨hrest, htransport⟩ | hrest := hparts.eq_or_eq
    · rw [hrest] at hported
      exact .short (eq_unstated_of_text_eq_nil htransport) hported hhost
    · rw [hrest] at hported
      exact .full hported hhost

end Forms

section Colons

def bracketStep (opened : Bool) (c : Char) : Bool :=
  if c = '[' then true else if c = ']' then false else opened

def opened (t : Text) : Bool := t.foldl bracketStep false

/-- A colon that stands in a text outside brackets, and what is before and behind it. -/
structure OuterColon (t front back : Text) : Prop where
  eq : t = front ++ ':' :: back
  outer : opened front = false

/-- The colon before the port is the one colon outside brackets in the authority of a URI. -/
def SingleColon (uri : Text) (port : Nat) : Prop :=
  ∃ host, uri = "http://".toList ++ (host ++ ':' :: Numeral.ofNat port) ∧
    ∀ front back, OuterColon (host ++ ':' :: Numeral.ofNat port) front back ↔
      front = host ∧ back = Numeral.ofNat port

/-- The colons of a host are in brackets, none of which is left open. -/
structure Enclosed (host : Text) : Prop where
  colons : ∀ front back, ¬ OuterColon host front back
  closed : opened host = false

theorem foldl_bracketStep {t : Text} (hopen : '[' ∉ t) (hclose : ']' ∉ t) (before : Bool) :
    t.foldl bracketStep before = before := by
  induction t with
  | nil => rfl
  | cons c t ih =>
    rw [List.mem_cons, not_or, eq_comm] at hopen hclose
    rw [List.foldl_cons, bracketStep, if_neg hopen.1, if_neg hclose.1, ih hopen.2 hclose.2]

theorem outerColon_append_iff {host numeral front back : Text} (h : ':' ∉ numeral) :
    OuterColon (host ++ ':' :: numeral) front back ↔
      (front = host ∧ back = numeral ∧ opened host = false) ∨
      ∃ rest, OuterColon host front rest ∧ back = rest ++ ':' :: numeral := by
  constructor
  · intro hcolon
    obtain ⟨heq, houter⟩ := hcolon
    obtain ⟨middle, hfront, hback⟩ | ⟨middle, hhost, hback⟩ := List.append_eq_append_iff.mp heq
    · cases middle with
      | nil =>
        rw [List.nil_append, List.cons.injEq] at hback
        rw [List.append_nil] at hfront
        subst hfront
        exact .inl ⟨rfl, hback.2.symm, houter⟩
      | cons c middle =>
        rw [List.cons_append, List.cons.injEq] at hback
        refine absurd ?_ h
        rw [hback.2]
        exact List.mem_append_right _ List.mem_cons_self
    · cases middle with
      | nil =>
        rw [List.nil_append, List.cons.injEq] at hback
        rw [List.append_nil] at hhost
        subst hhost
        exact .inl ⟨rfl, hback.2, houter⟩
      | cons c middle =>
        rw [List.cons_append, List.cons.injEq] at hback
        obtain ⟨rfl, hback⟩ := hback
        exact .inr ⟨middle, ⟨hhost, houter⟩, hback⟩
  · intro hcolon
    obtain ⟨rfl, rfl, houter⟩ | ⟨rest, ⟨heq, houter⟩, rfl⟩ := hcolon
    · exact ⟨rfl, houter⟩
    · refine ⟨?_, houter⟩
      rw [heq, List.append_assoc, List.cons_append]

theorem enclosed_iff {host numeral : Text} (h : ':' ∉ numeral) :
    (∀ front back, OuterColon (host ++ ':' :: numeral) front back ↔
      front = host ∧ back = numeral) ↔ Enclosed host := by
  constructor
  · intro honly
    refine ⟨fun front rest hcolon => ?_, ((honly host numeral).mpr ⟨rfl, rfl⟩).outer⟩
    have hsame := (honly front _).mp ((outerColon_append_iff h).mpr (.inr ⟨rest, hcolon, rfl⟩))
    have hlength := congrArg List.length hcolon.eq
    rw [hsame.1, List.length_append, List.length_cons] at hlength
    omega
  · intro henclosed front back
    rw [outerColon_append_iff h]
    constructor
    · intro hcolon
      obtain ⟨hfront, hback, -⟩ | ⟨rest, hcolon, -⟩ := hcolon
      · exact ⟨hfront, hback⟩
      · exact absurd hcolon (henclosed.colons front rest)
    · intro hends
      exact .inl ⟨hends.1, hends.2, henclosed.closed⟩

theorem DocumentedHost.enclosed {host : Text} (h : DocumentedHost host) : Enclosed host := by
  cases h with
  | plain hcolon hopen hclose =>
    refine ⟨fun front back houter => hcolon ?_, foldl_bracketStep hopen hclose false⟩
    rw [houter.eq]
    exact List.mem_append_right _ List.mem_cons_self
  | @bracketed inner hopen hclose =>
    constructor
    · intro front back houter
      obtain ⟨heq, houter⟩ := houter
      cases front with
      | nil => simp at heq
      | cons c front =>
        rw [List.cons_append, List.cons_append, List.cons.injEq] at heq
        obtain ⟨rfl, heq⟩ := heq
        obtain ⟨middle, -, hlast⟩ | ⟨middle, hinner, -⟩ := List.append_eq_append_iff.mp heq
        · cases middle <;> simp at hlast
        · rw [hinner, List.mem_append, not_or] at hopen hclose
          have hwithin : opened ('[' :: front) = true := foldl_bracketStep hopen.1 hclose.1 true
          simp [hwithin] at houter
    · rw [opened, List.foldl_append]
      rfl

end Colons

def hostname (a : Address) : Text := if a.host = [] then localHost else a.host

theorem uri_eq (a : Address) :
    a.uri = "http://".toList ++ (a.hostname ++ ':' :: Numeral.ofNat a.port.toNat) := rfl

theorem enclosed_hostname_iff (a : Address) : Enclosed a.hostname ↔ Enclosed a.host := by
  rw [hostname]
  split
  next hempty =>
    have hlocal : DocumentedHost localHost := .plain (by decide) (by decide) (by decide)
    have hnone : DocumentedHost [] := .plain (by decide) (by decide) (by decide)
    rw [hempty]
    exact iff_of_true hlocal.enclosed hnone.enclosed
  next => rfl

theorem singleColon_uri_iff (a : Address) :
    SingleColon a.uri a.port.toNat ↔ Enclosed a.host := by
  have hport := colon_not_mem_ofNat a.port.toNat
  rw [← enclosed_hostname_iff, ← enclosed_iff hport]
  constructor
  · intro h
    obtain ⟨host, huri, honly⟩ := h
    rw [uri_eq] at huri
    rwa [List.append_cancel_right (List.append_cancel_left huri)]
  · intro honly
    exact ⟨a.hostname, a.uri_eq, honly⟩

/-- What is documented is read as documented, and an address that is read has a documented host only
if its text was one of the documented forms. The colons of a host are not looked at, so that the URI
has its one colon before the port exactly if those of the host are in brackets. -/
theorem read_documented (s : Text) (a : Address) :
    (read s = .ok a →
      (DocumentedHost a.host ↔ Documented s a) ∧
      (SingleColon a.uri a.port.toNat ↔ Enclosed a.host)) ∧
    (Documented s a → read s = .ok a ∧ SingleColon a.uri a.port.toNat) := by
  constructor
  · intro h
    exact ⟨⟨documented_of_read h, Documented.host⟩, singleColon_uri_iff a⟩
  · intro h
    exact ⟨read_of_documented h, (singleColon_uri_iff a).mpr h.host.enclosed⟩

theorem read_unbracketed :
    ∃ a, read "DbMan@tcp:::1:4000".toList = .ok a ∧
      ¬ DocumentedHost a.host ∧ ¬ SingleColon a.uri a.port.toNat := by
  refine ⟨⟨"DbMan".toList, .tcp, "::1".toList, 4000⟩, by rfl, ?_, ?_⟩
  · intro h
    exact absurd (h.opensBracket (by decide)) (by decide)
  · rw [singleColon_uri_iff]
    intro h
    exact h.colons [] ":1".toList ⟨rfl, rfl⟩

end QueryConsole.Address
