import QueryConsole.Invocation
import QueryConsole.Output
import QueryConsole.Service

set_option autoImplicit false

namespace QueryConsole

namespace Operation

def kindInfo : Text := "kindInfo".toList
def singleQuery : Text := "sQuery".toList
def multiQuery : Text := "mQuery".toList

end Operation

namespace Key

def kind : Text := "kind".toList
def facets : Text := "facets".toList
def hintId : Text := "hintId".toList
def sql : Text := "sql".toList
def sqls : Text := "sqls".toList
def convert : Text := "convert".toList
def detail : Text := "detail".toList
def version : Text := "version".toList
def tableNumber : Text := "tableNumber".toList
def xidName : Text := "xidName".toList

end Key

def Value.int (n : Int64) : Value := .number (Double.ofInt n.toInt)

structure KindInfo where
  kind : Option Text
  detail : Option Text
  version : Option Int64
  tableNumber : Option Int64
  xidName : Option Text
  deriving DecidableEq, Repr

def KindInfo.ofAnswer (answer : Record) : Except EntryFault KindInfo := do
  let kind ← answer.text? Key.kind
  let detail ← answer.text? Key.detail
  let version ← answer.int? Key.version
  let tableNumber ← answer.int? Key.tableNumber
  let xidName ← answer.text? Key.xidName
  return ⟨kind, detail, version, tableNumber, xidName⟩

namespace Request

def kindInfo (kind : Text) (facets : List Text) : Record :=
  Record.ofList [(Key.kind, .string kind), (Key.facets, .list (facets.map .string))]

def describeId : Int64 := 1

def describe (kind : Text) : Record :=
  Record.ofList
    [(Key.kind, .string kind), (Key.hintId, .int describeId),
      (Key.sql, .string ("desc ".toList ++ kind))]

def single (kind : Text) (hintId : Int64) (sql : Text) : Record :=
  Record.ofList
    [(Key.kind, .string kind), (Key.hintId, .int hintId), (Key.sql, .string sql),
      (Key.convert, .bool true)]

def batch (kind : Text) (hintId : Int64) (sqls : List Text) : Record :=
  Record.ofList
    [(Key.kind, .string kind), (Key.hintId, .int hintId), (Key.sqls, .list (sqls.map .string)),
      (Key.convert, .bool true)]

end Request

namespace Plan

def kindInfo (kind : Text) (facets : List Text) : Plan KindInfo :=
  (invoke Operation.kindInfo (Request.kindInfo kind facets)).bind fun answer =>
    decoded Operation.kindInfo (KindInfo.ofAnswer answer)

/-- The detail comes before the table, and the table is asked for only where there is a detail. -/
def describe (kind : Text) : Plan (List Output) :=
  (kindInfo kind [Key.detail]).bind fun info =>
    match info.detail with
    | none => decoded Operation.kindInfo (.error (.missing Key.detail))
    | some detail =>
      (invoke Operation.singleQuery (Request.describe kind)).bind fun answer =>
        (decoded Operation.singleQuery (Table.ofAnswer answer)).map fun table =>
          [.detail detail, .table table]

def query (operation : Text) (args : Record) : Plan (List Output) :=
  (invoke operation args).map fun answer => [.generic (.record answer)]

def dispatch (i : Invocation) : Plan (List Output) :=
  match i.mode with
  | .describe kind => describe kind
  | .single kind hintId sql => query Operation.singleQuery (Request.single kind hintId sql)
  | .batch kind hintId sql extra =>
    query Operation.multiQuery (Request.batch kind hintId (sql :: extra))

end Plan

end QueryConsole
