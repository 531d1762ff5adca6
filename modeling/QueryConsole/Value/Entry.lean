import QueryConsole.Value.Basic

set_option autoImplicit false

namespace QueryConsole

inductive Expected where
  | text | integer | list | texts | lists
  deriving DecidableEq, Repr

def Expected.name : Expected → Text
  | .text => "a string".toList
  | .integer => "an integer".toList
  | .list => "a list".toList
  | .texts => "a list of strings".toList
  | .lists => "a list of lists".toList

inductive EntryFault where
  | missing : Text → EntryFault
  | mismatch : Text → Expected → EntryFault
  deriving DecidableEq, Repr

def EntryFault.message : EntryFault → Text
  | .missing key => '`' :: key ++ "` is missing".toList
  | .mismatch key expected => '`' :: key ++ "` is not ".toList ++ expected.name

namespace Record

def present? (r : Record) (key : Text) : Option Value :=
  match r.get? key with
  | none => none
  | some .unset => none
  | some v => some v

def text? (r : Record) (key : Text) : Except EntryFault (Option Text) :=
  match r.present? key with
  | none => .ok none
  | some (.string s) => .ok (some s)
  | some _ => .error (.mismatch key .text)

/-- An integer out of the range of ids is read as the nearest end of that range. -/
def int? (r : Record) (key : Text) : Except EntryFault (Option Int64) :=
  match r.present? key with
  | none => .ok none
  | some (.number x) =>
    match x.toInt? with
    | some n => .ok (some (Int64.ofInt (Bounds.id.clamp n)))
    | none => .error (.mismatch key .integer)
  | some _ => .error (.mismatch key .integer)

def list (r : Record) (key : Text) : Except EntryFault (List Value) :=
  match r.present? key with
  | none => .error (.missing key)
  | some (.list vs) => .ok vs
  | some _ => .error (.mismatch key .list)

end Record

def Value.texts (key : Text) : List Value → Except EntryFault (List Text)
  | [] => .ok []
  | .string s :: vs => (Value.texts key vs).map (s :: ·)
  | _ :: _ => .error (.mismatch key .texts)

/-- The values of a list that should hold lists of texts only. The first fault counts. -/
def Value.textLists (key : Text) : List Value → Except EntryFault (List (List Text))
  | [] => .ok []
  | .list vs :: rows =>
    match Value.texts key vs with
    | .error fault => .error fault
    | .ok row => (Value.textLists key rows).map (row :: ·)
  | _ :: _ => .error (.mismatch key .lists)

end QueryConsole
