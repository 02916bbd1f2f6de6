import Crosswalk.Decimal.Reading
import Crosswalk.Options
import Crosswalk.Text.Search

namespace Crosswalk.CommandLine

inductive Takes where
  | nothing
  | path
  | text
  | direction
  | preset
  | real
  | number
deriving DecidableEq

/-- A whole number with an optional sign that fits 32 bits. -/
def number? (s : String) : Option Nat :=
  match s.toList with
  | '-' :: ds => if ds.head? = some '+' then none else Decimal.natUpTo? 0 ds
  | ds => Decimal.natUpTo? 0xFFFFFFFF ds

def Takes.accepts (t : Takes) (s : String) : Bool :=
  match t with
  | .nothing => false
  | .path => s != ""
  | .text => true
  | .direction => (Direction.parse s).toOption.isSome
  | .preset => (Preset.parse s).toOption.isSome
  | .real => (Decimal.float? s).isSome
  | .number => (number? s).isSome

structure Opt where
  long : String
  short : Option Char := none
  takes : Takes := .nothing

inductive Said where
  | option (o : Opt) (value : String)
  | word (s : String)
  | help
  | version
  | nonsense

def looksLikeOption (s : String) : Bool := s.startsWith "-" && s != "-"

def Said.valued (o : Opt) (value : String) : Said :=
  if o.takes.accepts value then .option o value else .nonsense

def following (o : Opt) : List String → Said × Nat
  | v :: _ => if looksLikeOption v then (.nonsense, 0) else (.valued o v, 1)
  | [] => (.nonsense, 0)

def sayLong (options : List Opt) (s : List Char) (rest : List String) : Said × Nat :=
  let name := String.ofList (s.takeWhile (· != '='))
  let joined := s.dropWhile (· != '=')
  match options.find? (·.long == name) with
  | none =>
    if !joined.isEmpty then (.nonsense, 0)
    else if name = "help" then (.help, 0)
    else if name = "version" then (.version, 0)
    else (.nonsense, 0)
  | some o =>
    match o.takes, joined with
    | .nothing, [] => (.option o "", 0)
    | .nothing, _ => (.nonsense, 0)
    | _, [] => following o rest
    | _, _ :: value => (.valued o (String.ofList value), 0)

/-- Short options may be joined to each other; the first one that takes a value ends them. -/
def sayShort (options : List Opt) (rest : List String) : List Char → List Said × Nat
  | [] => ([], 0)
  | c :: more =>
    match options.find? (·.short == some c) with
    | none => ([if c = 'h' then .help else if c = 'V' then .version else .nonsense], 0)
    | some o =>
      if o.takes = .nothing then
        let (said, used) := sayShort options rest more
        (.option o "" :: said, used)
      else
        match more with
        | [] =>
          let (said, used) := following o rest
          ([said], used)
        | '=' :: value => ([.valued o (String.ofList value)], 0)
        | value => ([.valued o (String.ofList value)], 0)

def say (options : List Opt) : (used : Nat) → List String → List Said
  | _, [] => []
  | n + 1, _ :: rest => say options n rest
  | 0, a :: rest =>
    match a.toList with
    | ['-', '-'] => rest.map .word
    | '-' :: '-' :: name =>
      let (said, used) := sayLong options name rest
      said :: say options used rest
    | '-' :: c :: more =>
      let (said, used) := sayShort options rest (c :: more)
      said ++ say options used rest
    | _ => .word a :: say options 0 rest

inductive Stop where
  | help
  | version
  | misuse
deriving DecidableEq, Repr

structure Given where
  options : List (String × String) := []
  words : List String := []

def Given.value? (g : Given) (long : String) : Option String := g.options.lookup long

def Given.has (g : Given) (long : String) : Bool := (g.value? long).isSome

/-- Take in what arguments say, at most so many words. No option may come twice. -/
def collect (words : Nat) (knowsVersion : Bool) : Given → List Said → Except Stop Given
  | g, [] => .ok g
  | g, .option o value :: rest =>
    if g.has o.long then .error .misuse
    else collect words knowsVersion { g with options := g.options ++ [(o.long, value)] } rest
  | g, .word s :: rest =>
    if g.words.length < words ∧ Takes.path.accepts s then
      collect words knowsVersion { g with words := g.words ++ [s] } rest
    else .error .misuse
  | _, .help :: _ => .error .help
  | _, .version :: _ => .error (if knowsVersion then .version else .misuse)
  | _, .nonsense :: _ => .error .misuse

structure ConvertArguments where
  input : String
  out : String
  options : CallOptions
  offline : Bool
  noValidate : Bool
  json : Bool

inductive Command where
  | convert (a : ConvertArguments)
  | classify (input : String) (threshold : Option Nat) (json : Bool)
  | context (input : String) (json : Bool)

structure Arguments where
  config : Option String
  verbose : Bool
  command : Command

def sharedOptions : List Opt := [⟨"config", some 'c', .path⟩, ⟨"verbose", some 'v', .nothing⟩]

def convertOptions : List Opt :=
  [⟨"out", some 'o', .path⟩, ⟨"direction", some 'd', .direction⟩, ⟨"preset", some 'p', .preset⟩,
    ⟨"model", none, .text⟩, ⟨"model-hint", none, .text⟩, ⟨"temperature", none, .real⟩,
    ⟨"max-attempts", none, .number⟩, ⟨"offline", none, .nothing⟩,
    ⟨"no-validate", none, .nothing⟩, ⟨"json", none, .nothing⟩]

def classifyOptions : List Opt := [⟨"threshold", none, .number⟩, ⟨"json", none, .nothing⟩]

def contextOptions : List Opt := [⟨"json", none, .nothing⟩]

def Given.convert (g : Given) (input : String) : ConvertArguments where
  input
  out := (g.value? "out").getD "reforge-out"
  options := {
    direction := (g.value? "direction").bind fun s => (Direction.parse s).toOption
    preset := (g.value? "preset").bind fun s => (Preset.parse s).toOption
    temperature := (g.value? "temperature").bind Decimal.float?
    maxAttempts := (g.value? "max-attempts").bind number?
    model := g.value? "model"
    modelHint := g.value? "model-hint" }
  offline := g.has "offline"
  noValidate := g.has "no-validate"
  json := g.has "json"

def commands : List (String × List Opt × (Given → String → Command)) :=
  [("convert", convertOptions, fun g input => .convert (g.convert input)),
    ("classify", classifyOptions, fun g input =>
      .classify input ((g.value? "threshold").bind number?) (g.has "json")),
    ("context", contextOptions, fun g input => .context input (g.has "json"))]

def readCommand (before : Given) (name : String) (args : List String) : Except Stop Arguments :=
  match commands.lookup name with
  | none =>
    match name, args with
    | "help", [] => .error .help
    | "help", [topic] =>
      .error (if topic == "help" || (commands.lookup topic).isSome then .help else .misuse)
    | _, _ => .error .misuse
  | some (options, make) => do
    let g ← collect 1 false {} (say (sharedOptions ++ options) 0 args)
    match g.words with
    | [input] =>
      .ok {
        config := g.value? "config" <|> before.value? "config"
        verbose := g.has "verbose" || before.has "verbose"
        command := make g input }
    | _ => .error .misuse

def lead (options : List Opt) : (used : Nat) → List String → Nat
  | _, [] => 0
  | n + 1, _ :: rest => lead options n rest + 1
  | 0, a :: rest =>
    match a.toList with
    | ['-', '-'] => rest.length + 1
    | '-' :: '-' :: name => lead options (sayLong options name rest).2 rest + 1
    | '-' :: c :: more => lead options (sayShort options rest (c :: more)).2 rest + 1
    | _ => 0

/-- Every option may be given once on either side of the command, and the side behind the command
wins. -/
def parse (args : List String) : Except Stop Arguments := do
  let n := lead sharedOptions 0 args
  let before ← collect 0 true {} (say sharedOptions 0 (args.take n))
  match args.drop n with
  | name :: rest => readCommand before name rest
  | [] => .error .misuse

end Crosswalk.CommandLine
