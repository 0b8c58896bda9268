import MarkTidy.Text.DecimalDigit
import MarkTidy.Text.Quoted
import MarkTidy.Text.Search

/-!
Command lines. Options have a short name, a long name or both; a long name may be cut short as long as
it stays clear which one is meant, and short names may be run together. Two dashes end the options.
What is no option is an operand.
-/

namespace MarkTidy.Command

open Text

/-- What an option asks for. -/
inductive Request where
  | help
  | verbose
  | quiet
  | logFile
  | dryRun
deriving DecidableEq, Repr

structure Opt where
  request : Request
  /-- All names with their dashes. -/
  names : List Text
  takesValue : Bool
deriving DecidableEq, Repr

namespace Opt

/-- The names as messages show them. -/
def title (o : Opt) : Text := (o.names.intersperse ['/']).flatten

end Opt

/-- What operands a command takes. -/
inductive Operands where
  /-- A word, and whatever comes after it. -/
  | subcommand
  /-- Any number of words next to each other. -/
  | words
deriving DecidableEq, Repr

structure Grammar where
  program : Text
  usage : Text
  help : Text
  options : List Opt
  operands : Operands
deriving DecidableEq, Repr

/-- Why a command line is not carried out: it asks for help, or it is wrong. -/
inductive Halt where
  | help (text : Text)
  | misuse (usage program problem : Text)
deriving DecidableEq, Repr

/-- What an argument is by its looks. -/
inductive Piece where
  | operand
  | endOfOptions
  | option (o : Opt) (name : Text) (value : Option Text)
  | unknownOption
deriving DecidableEq, Repr

/-- A command line read in part: the options with their values, the operands, and arguments that
have no meaning. -/
structure Parsed where
  given : List (Request × Text) := []
  operands : Option (List Text) := none
  extras : List Text := []
deriving DecidableEq, Repr

namespace Parsed

def has (p : Parsed) (r : Request) : Bool := p.given.any (·.1 == r)

/-- The value of an option; the last one if it is given more than once. -/
def value? (p : Parsed) (r : Request) : Option Text := (p.given.reverse).lookup r

end Parsed

namespace Grammar

def misuse {α : Type} (g : Grammar) (problem : Text) : Except Halt α :=
  .error (.misuse g.usage g.program problem)

def misuseOf {α : Type} (g : Grammar) (o : Opt) (problem : Text) : Except Halt α :=
  g.misuse ("argument ".toList ++ o.title ++ ": ".toList ++ problem)

/-- All names of options, each with its option. -/
def names (g : Grammar) : List (Text × Opt) :=
  g.options.flatMap fun o => o.names.map fun n => (n, o)

/-- Whether an argument is a negative number, perhaps with a line feed at its end. -/
def isNegativeNumber (t : Text) : Bool :=
  let t := if t.getLast? = some '\n' then t.dropLast else t
  match t with
  | '-' :: digits =>
    match splitAtChar '.' digits with
    | [whole] => !whole.isEmpty && whole.all isDecimalDigit
    | [whole, part] => whole.all isDecimalDigit && !part.isEmpty && part.all isDecimalDigit
    | _ => false
  | _ => false

/-- The options that a cut long name may stand for. -/
def longMatches (g : Grammar) (name : Text) : List (Text × Opt) :=
  g.names.filter fun n => name.isPrefixOf n.1

/-- What an argument is. -/
def classify (g : Grammar) (t : Text) : Except Halt Piece :=
  if t.head? ≠ some '-' then .ok .operand
  else
    match g.names.lookup t with
    | some o => .ok (.option o t none)
    | none =>
      if t.length = 1 then .ok .operand
      else
        let (name, value) := match breakOn ['='] t with
          | some (name, value) => (name, some value)
          | none => (t, none)
        match value, g.names.lookup name with
        | some v, some o => .ok (.option o name (some v))
        | _, _ =>
          let candidates := if t[1]? = some '-' then
              (g.longMatches name).map fun (n, o) => (n, o, value)
            else
              (g.names.filter (·.1 = t.take 2)).map fun (n, o) => (n, o, some (t.drop 2))
          match candidates with
          | [(n, o, v)] => .ok (.option o n v)
          | [] =>
            if isNegativeNumber t || t.contains ' ' then .ok .operand else .ok .unknownOption
          | several =>
            g.misuse ("ambiguous option: ".toList ++ t ++ " could match ".toList ++
              (([',', ' '] : Text).intercalate (several.map (·.1))))

/-- What some arguments are. All that follow the end of options are operands. -/
def classifyAll (g : Grammar) : List Text → Except Halt (List (Text × Piece))
  | [] => .ok []
  | t :: rest => do
    if t = ['-', '-'] then return (t, .endOfOptions) :: rest.map (·, .operand)
    let piece ← g.classify t
    return (t, piece) :: (← g.classifyAll rest)

/-- The options that a name and the text run together with it ask for, and the last of them if it
takes a value that is still to come. -/
def expand (g : Grammar) (o : Opt) (name : Text) :
    Option Text → Except Halt (List (Request × Text) × Option Opt)
  | none => .ok (if o.takesValue then ([], some o) else ([(o.request, [])], none))
  | some v =>
    if o.takesValue then .ok ([(o.request, v)], none)
    else if name[1]? = some '-' then ignored o v
    else cluster o v
where
  ignored {α : Type} (o : Opt) (v : Text) : Except Halt α :=
    g.misuseOf o ("ignored explicit argument ".toList ++ quoted v)
  /-- Short names that follow a short name. -/
  cluster (o : Opt) : Text → Except Halt (List (Request × Text) × Option Opt)
    | [] => ignored o []
    | c :: r => do
      let some next := g.names.lookup ['-', c] | ignored o (c :: r)
      let here := (o.request, ([] : Text))
      if next.takesValue then
        return if r.isEmpty then ([here], some next) else ([here, (next.request, r)], none)
      else if r.isEmpty then return ([here, (next.request, [])], none)
      else
        let (more, pending) ← cluster next r
        return (here :: more, pending)

/-- Takes note of options; a request for help comes before all that follows. -/
def note (g : Grammar) (p : Parsed) (given : List (Request × Text)) : Except Halt Parsed :=
  if given.any (·.1 == .help) then .error (.help g.help)
  else .ok { p with given := p.given ++ given }

def addOperand (p : Parsed) (t : Text) : Parsed :=
  { p with operands := some (p.operands.getD [] ++ [t]) }

/-- Reads classified arguments. `pending` is an option whose value comes next, and `inOperands` tells
whether the operands may go on. -/
def readFrom (g : Grammar) (p : Parsed) (pending : Option Opt) (inOperands : Bool) :
    List (Text × Piece) → Except Halt Parsed
  | [] =>
    match pending with
    | some o => g.misuseOf o "expected one argument".toList
    | none => .ok p
  | (t, piece) :: rest =>
    match pending, piece with
    | some o, .operand => do g.readFrom (← g.note p [(o.request, t)]) none false rest
    | some o, _ => g.misuseOf o "expected one argument".toList
    | none, .option o name value => do
      let (given, pending) ← g.expand o name value
      g.readFrom (← g.note p given) pending false rest
    | none, .unknownOption => g.readFrom { p with extras := p.extras ++ [t] } none false rest
    | none, _ =>
      match g.operands with
      | .subcommand =>
        if ((t, piece) :: rest).any (·.2 == .operand) then
          .ok { p with operands := some (t :: rest.map (·.1)) }
        else .ok { p with extras := p.extras ++ t :: rest.map (·.1) }
      | .words =>
        if inOperands || p.operands.isNone then g.readFrom (addOperand p t) none true rest
        else g.readFrom { p with extras := p.extras ++ [t] } none false rest

/-- Reads a command line. -/
def read (g : Grammar) (args : List Text) : Except Halt Parsed := do
  g.readFrom {} none false (← g.classifyAll args)

end Grammar

end MarkTidy.Command
