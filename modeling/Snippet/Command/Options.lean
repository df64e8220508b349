import Snippet.Text.Numeric
import Snippet.Text.Search

/-!
Reading the options of the command line. A long option may be cut short as long as one option is
meant; its argument follows it, or an equals sign. What follows `--` is no option.
-/

set_option autoImplicit false

namespace Snippet

/-- What an option switches on or names. -/
inductive Switch where
  | help | source | verbose | tracebackJson | ext | normalize | compare
  deriving Repr, DecidableEq

namespace Switch

def takesArgument : Switch → Bool
  | ext | compare => true
  | help | source | verbose | tracebackJson | normalize => false

/-- All spellings. -/
def spellings : List (Text × Switch) := [
  ("-h".toList, help), ("--help".toList, help),
  ("-source".toList, source), ("--source".toList, source),
  ("-verbose".toList, verbose), ("--verbose".toList, verbose),
  ("--traceback-json".toList, tracebackJson),
  ("--ext".toList, ext),
  ("--normalize".toList, normalize),
  ("--compare".toList, compare)]

def spelled? (t : Text) : Option Switch :=
  spellings.lookup t

end Switch

structure Options where
  program : Option Text
  source : Bool
  verbose : Bool
  tracebackJson : Bool
  extensions : List Text
  normalize : Bool
  compare : Option Text
  deriving Repr, DecidableEq

/-- Why there are no options to go on with. -/
inductive OptionsExit where
  | help
  | usage
  deriving Repr, DecidableEq

namespace OptionsExit

def code : OptionsExit → Nat
  | help => 0
  | usage => 2

end OptionsExit

namespace Options

def initial : Options :=
  { program := none, source := false, verbose := false, tracebackJson := false,
    extensions := [], normalize := false, compare := none }

/-- A word of the command line. -/
inductive Word where
  | plain (t : Text)
  | option (spelling : Text) (switch : Switch) (given : Option Text)
  | unknown
  /-- The mark after which every word is plain. -/
  | mark

/-- A text cut at its first equals sign. -/
def cutAtEquals (t : Text) : Text × Option Text :=
  match t.span (· != '=') with
  | (name, _ :: given) => (name, some given)
  | (name, []) => (name, none)

/-- The options that a word may be short for. -/
def candidates (t : Text) : List Word :=
  match t with
  | '-' :: '-' :: _ =>
      let (name, given) := cutAtEquals t
      (Switch.spellings.filter fun s => name.isPrefixOf s.1).map fun s => .option s.1 s.2 given
  | _ =>
      -- One letter after a single dash may be followed by more.
      let short := t.take 2
      Switch.spellings.filterMap fun s =>
        if s.1 == short then some (.option s.1 s.2 (some (t.drop 2)))
        else if t.isPrefixOf s.1 then some (.option s.1 s.2 none)
        else none

/-- Whether a text reads as a negative number. -/
def isNegativeNumber (t : Text) : Bool :=
  let body := if t.getLast? == some '\n' then t.dropLast else t
  match body with
  | '-' :: digits =>
      match digits.dropWhile isDecimal with
      | [] => !digits.isEmpty
      | '.' :: places => !places.isEmpty && places.all isDecimal
      | _ => false
  | _ => false

/-- A word that starts with a dash and is no complete option. -/
def wordOfDashed (t : Text) : Except OptionsExit Word :=
  match candidates t with
  | [word] => .ok word
  | [] => .ok (if isNegativeNumber t || t.contains ' ' then .plain t else .unknown)
  | _ => .error .usage

def wordOf (t : Text) : Except OptionsExit Word :=
  let (name, given) := cutAtEquals t
  match t, Switch.spelled? t, Switch.spelled? name with
  | '-' :: _ :: _, some switch, _ => .ok (.option t switch none)
  | '-' :: _ :: _, none, some switch => .ok (.option name switch given)
  | '-' :: _ :: _, none, none => wordOfDashed t
  | _, _, _ => .ok (.plain t)

/-- All words; what follows the mark is plain. -/
def wordsOf : List Text → Except OptionsExit (List Word)
  | [] => .ok []
  | t :: rest =>
      if t == ['-', '-'] then .ok (.mark :: rest.map .plain)
      else do
        let word ← wordOf t
        return word :: (← wordsOf rest)

/-- Switch on an option without an argument. -/
def turnOn (o : Options) : Switch → Except OptionsExit Options
  | .help => .error .help
  | .source => .ok { o with source := true }
  | .verbose => .ok { o with verbose := true }
  | .tracebackJson => .ok { o with tracebackJson := true }
  | .normalize => .ok { o with normalize := true }
  | .ext | .compare => .error .usage

/-- Take an option with its argument. -/
def take (o : Options) (switch : Switch) (argument : Text) : Except OptionsExit Options :=
  match switch with
  | .ext => .ok { o with extensions := o.extensions ++ [argument] }
  | .compare => .ok { o with compare := some argument }
  | .help | .source | .verbose | .tracebackJson | .normalize => .error .usage

/-- What is given to an option behind a single dash that takes no argument: letters that are
options of their own. -/
def turnOnLetters (o : Options) (switch : Switch) : Text → Except OptionsExit Options
  | [] => o.turnOn switch
  | letter :: rest =>
      match Switch.spelled? ['-', letter] with
      | none => .error .usage
      | some next => do
          let later ← turnOnLetters o next rest
          later.turnOn switch

/-- An option with a text that belongs to it. -/
def useGiven (o : Options) (spelling : Text) (switch : Switch) (given : Text) :
    Except OptionsExit Options :=
  if switch.takesArgument then o.take switch given
  else if given.isEmpty || spelling.take 2 == ['-', '-'] then .error .usage
  else o.turnOnLetters switch given

/-- The end of the command line. A word that has no place is refused only here, so that a call for
help goes before it. -/
def finish (o : Options) (surplus : Bool) : Except OptionsExit Options :=
  if surplus then .error .usage else .ok o

/-- Read the words in order. The first plain word is the program. The mark may stand before the
program or directly behind it. -/
def readWords : Options → Bool → List Word → Except OptionsExit Options
  | o, surplus, [] => o.finish surplus
  | o, surplus, .option spelling switch (some given) :: rest => do
      readWords (← o.useGiven spelling switch given) surplus rest
  | o, surplus, .option _ switch none :: rest =>
      if switch.takesArgument then
        match rest with
        | .plain argument :: rest => do readWords (← o.take switch argument) surplus rest
        | _ => .error .usage
      else do readWords (← o.turnOn switch) surplus rest
  | o, _, .unknown :: rest => readWords o true rest
  | o, surplus, .plain t :: rest =>
      match o.program, rest with
      | some _, rest => readWords o true rest
      | none, .mark :: rest => { o with program := some t }.finish (surplus || !rest.isEmpty)
      | none, rest => readWords { o with program := some t } surplus rest
  | o, surplus, .mark :: rest =>
      match o.program, rest with
      | none, [] => o.finish surplus
      | none, [.plain t] => { o with program := some t }.finish surplus
      | _, _ => .error .usage

/-- The options that the words of a command line mean. -/
def read (argv : List Text) : Except OptionsExit Options := do
  readWords initial false (← wordsOf argv)

end Options

end Snippet
