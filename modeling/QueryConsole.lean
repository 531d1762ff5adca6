import QueryConsole.Main
import QueryConsole.Session
import QueryConsole.Value.Layout.Lemmas
import QueryConsole.Proofs.Quoted
import QueryConsole.Proofs.Double.ReadBack
import QueryConsole.Proofs.Value.Breaks
import QueryConsole.Proofs.Value.Reading
import QueryConsole.Proofs.Plan
import QueryConsole.Proofs.Dispatch
import QueryConsole.Proofs.Address
import QueryConsole.Proofs.Output
import QueryConsole.Proofs.Address.Grammar
import QueryConsole.Proofs.Command.Run
import QueryConsole.Proofs.Value.Message
import QueryConsole.Proofs.Proxy
import QueryConsole.Proofs.Session
import QueryConsole.Proofs.Invocation
import QueryConsole.Proofs.Command.Grammar
import QueryConsole.Proofs.Value.Lines
import QueryConsole.Proofs.Value.Alignment
import QueryConsole.Proofs.Value.Widening
import QueryConsole.Proofs.Value.Spreading
import QueryConsole.Proofs.Table.Drawing
import QueryConsole.Proofs.Table.Lines
import QueryConsole.Proofs.Table.Alike
import QueryConsole.Proofs.Table.Decoding
import QueryConsole.Proofs.Double.Value
import QueryConsole.Proofs.Value.Entry
import QueryConsole.Proofs.Dispatch.Facets
import QueryConsole.Proofs.Dispatch.Reported
import QueryConsole.Proofs.Text
import QueryConsole.Proofs.Value.Record
import QueryConsole.Proofs.Value.Contents
import QueryConsole.Proofs.Double.Nearest
import QueryConsole.Proofs.Double.Integer
import QueryConsole.Proofs.Value.Integer
import QueryConsole.Proofs.Dispatch.Requests
import QueryConsole.Proofs.Address.Hosts
import QueryConsole.Proofs.Invocation.Refused
import QueryConsole.Proofs.Table.Widths
import QueryConsole.Proofs.Quoted.Delimited
import QueryConsole.Proofs.Double.Interval
import QueryConsole.Proofs.Double.Shortest
import QueryConsole.Proofs.Double.Decimal
import QueryConsole.Proofs.Numeral.Refused
