import QueryConsole.Address.Basic
import QueryConsole.Terminal
import QueryConsole.Value.Layout

/-!
The options of the command line. Tokens are read from the left. An option takes what is attached to
it as its value, or else the next token unless that is an option too. The first token that is no
option, and all that follows it, are the positional arguments; so is all that follows two hyphens.
-/

set_option autoImplicit false

namespace QueryConsole.Command

inductive Setting where
  | endpoint | width
  deriving DecidableEq, Repr

def Setting.title : Setting → Text
  | .endpoint => "--endpoint <ENDPOINT>".toList
  | .width => "--width <WIDTH>".toList

inductive Token where
  | separator
  | help
  | version
  | setting : Setting → Option Text → Token
  | needless
  | positional
  deriving DecidableEq, Repr

def longToken (name : Text) (attached : Option Text) : Token :=
  if name = "endpoint".toList then .setting .endpoint attached
  else if name = "width".toList then .setting .width attached
  else if name = "help".toList then if attached.isSome then .needless else .help
  else if name = "version".toList then if attached.isSome then .needless else .version
  else .positional

def isShortName (c : Char) : Bool := c = 'e' ∨ c = 'w' ∨ c = 'h' ∨ c = 'V'

/-- Letters after one hyphen are options only if all of them are. The first one decides, and the
others are the value of a setting. -/
def shortToken (c : Char) (rest : Text) : Token :=
  let attached := if rest = [] then none else some rest
  if (c :: rest).all isShortName then
    if c = 'e' then .setting .endpoint attached
    else if c = 'w' then .setting .width attached
    else if c = 'h' then .help
    else .version
  else .positional

def Token.ofText : Text → Token
  | ['-', '-'] => .separator
  | '-' :: '-' :: body =>
    match splitFirst '=' body with
    | none => longToken body none
    | some (name, value) => longToken name (some value)
  | '-' :: c :: rest => shortToken c rest
  | _ => .positional

structure Options where
  endpoint : Address
  width : UInt64
  args : List Text
  deriving DecidableEq, Repr

structure Given where
  endpoint : Option Address
  width : Option UInt64
  deriving DecidableEq, Repr

def Given.nothing : Given := ⟨none, none⟩

def Given.options (g : Given) (args : List Text) : Options :=
  ⟨g.endpoint.getD Address.standard, g.width.getD Value.defaultWidth, args⟩

inductive OptionFault where
  | needlessValue
  | missingValue : Setting → OptionFault
  | repeated : Setting → OptionFault
  | invalidEndpoint : Text → AddressFault → OptionFault
  | invalidWidth : Text → Numeral.Fault → OptionFault
  deriving DecidableEq, Repr

inductive Stop where
  | help
  | version
  | fault : OptionFault → Stop
  deriving DecidableEq, Repr

def typed (name : Text) : Text :=
  '\'' :: Terminal.styled [Terminal.bold] name ++ ['\'']

/-- What is shown of a value that does not read. It stands there as it was typed, so the orders to
the terminal that it holds are taken out together with those that set the style. -/
def rejection (s : Setting) (value reason : Text) : Text :=
  Terminal.plain
    (Terminal.styled [Terminal.bold, Terminal.red] "error:".toList ++ " invalid value '".toList ++
      Terminal.styled [Terminal.yellow] value ++ "' for ".toList ++ typed s.title ++
      ": ".toList ++ reason ++ "\n\nFor more information, try ".toList ++
      typed "--help".toList ++ ".\n".toList)

def OptionFault.report? : OptionFault → Option Text
  | .invalidEndpoint value fault => some (rejection .endpoint value fault.message)
  | .invalidWidth value fault => some (rejection .width value fault.message)
  | .needlessValue => none
  | .missingValue _ => none
  | .repeated _ => none

/-- A repeated setting is reported before its value is read. -/
def Given.set (g : Given) (s : Setting) (value : Text) : Except OptionFault Given :=
  match s with
  | .endpoint =>
    if g.endpoint.isSome then .error (.repeated s)
    else
      match Address.read value with
      | .error fault => .error (.invalidEndpoint value fault)
      | .ok a => .ok { g with endpoint := some a }
  | .width =>
    if g.width.isSome then .error (.repeated s)
    else
      match Numeral.readWidth value with
      | .error fault => .error (.invalidWidth value fault)
      | .ok w => .ok { g with width := some w }

abbrev Named := Option (Setting × Option Text)

/-- Sets what is open. A value in a token of its own is read only here, when the next token shows
that it stands alone. -/
def Given.close (g : Given) : Named → Except OptionFault Given
  | none => .ok g
  | some (s, none) => .error (.missingValue s)
  | some (s, some value) => g.set s value

def Given.finish (g : Given) (named : Named) (args : List Text) : Except Stop Options :=
  match g.close named with
  | .error fault => .error (.fault fault)
  | .ok g => .ok (g.options args)

/-- Help and version come after the faults of the tokens before them, but a value attached to them
comes first. -/
def parseFrom (g : Given) (named : Named) : List Text → Except Stop Options
  | [] => g.finish named []
  | t :: rest =>
    match Token.ofText t with
    | .needless => .error (.fault .needlessValue)
    | .positional =>
      match named with
      | some (s, none) => parseFrom g (some (s, some t)) rest
      | _ => g.finish named (t :: rest)
    | .separator => g.finish named rest
    | .help =>
      match g.close named with
      | .error fault => .error (.fault fault)
      | .ok _ => .error .help
    | .version =>
      match g.close named with
      | .error fault => .error (.fault fault)
      | .ok _ => .error .version
    | .setting s none =>
      match g.close named with
      | .error fault => .error (.fault fault)
      | .ok g => parseFrom g (some (s, none)) rest
    | .setting s (some value) =>
      match g.close named with
      | .error fault => .error (.fault fault)
      | .ok g =>
        match g.set s value with
        | .error fault => .error (.fault fault)
        | .ok g => parseFrom g none rest

def parse (argv : List Text) : Except Stop Options := parseFrom Given.nothing none argv

end QueryConsole.Command
