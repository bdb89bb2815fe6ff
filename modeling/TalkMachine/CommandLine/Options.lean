import TalkMachine.Text.Spelling

/-!
# Arguments of the command line

Arguments are read from left to right. Long options have two dashes, and their value is behind an
equals sign or in the next argument; short options have one dash and can be joined. What has no dash
is the number, and behind two dashes alone everything is. No option may come twice, and the first
argument that cannot be understood makes the whole line unusable; a request for help or for the
version that comes before it is granted.
-/

namespace TalkMachine.CommandLine

/-- What the arguments can set. What they do not set is none. -/
structure Options where
  /-- The argument of the messages of the demonstration. -/
  number : Option Int
  /-- Whether the methods are to be listed instead of run. -/
  dumpsCode : Bool
  /-- The greatest size of the heap in bytes. -/
  memoryLimit : Option Nat
  /-- The size of the stack in bytes. -/
  stackSize : Option Nat
  verbose : Bool
deriving DecidableEq, Repr

/-- What the arguments ask for. -/
inductive Request
  | run (options : Options)
  | help
  | version
deriving DecidableEq, Repr

namespace Options

/-- Nothing is set. -/
def none : Options := ⟨Option.none, false, Option.none, Option.none, false⟩

/-- The options with one that was not set before. -/
def setOnce {α : Type} (old : Option α) (new : Option α) (set : α → Options) : Option Options :=
  match old, new with
  | Option.none, some a => some (set a)
  | _, _ => Option.none

/-- The text of a number of 64 bits with sign. -/
def readNumber? (text : String) : Option Int :=
  (Text.readInteger? text).filter (fun n => -0x8000_0000_0000_0000 ≤ n && n < 0x8000_0000_0000_0000)

/-- The text of a number of 64 bits without sign. -/
def readSize? (text : String) : Option Nat :=
  (Text.readNatural? text).filter (fun n => n < 0x1_0000_0000_0000_0000)

/-- Sets the number. -/
def setNumber (o : Options) (text : String) : Option Options :=
  setOnce o.number (readNumber? text) fun n => { o with number := some n }

/-- Sets that the methods are to be listed. -/
def setDumpsCode (o : Options) : Option Options :=
  if o.dumpsCode then Option.none else some { o with dumpsCode := true }

/-- Sets that there is to be more to read. -/
def setVerbose (o : Options) : Option Options :=
  if o.verbose then Option.none else some { o with verbose := true }

/-- Sets the option with a name and a value. -/
def setValued (o : Options) (name value : String) : Option Options :=
  if name = "memory-limit" then
    setOnce o.memoryLimit (readSize? value) fun n => { o with memoryLimit := some n }
  else if name = "stack-size" then
    setOnce o.stackSize (readSize? value) fun n => { o with stackSize := some n }
  else Option.none

end Options

namespace Request

/-- The request of arguments of which all are numbers. -/
def ofNumbers (o : Options) : List String → Option Request
  | [] => some (.run o)
  | number :: rest => do ofNumbers (← o.setNumber number) rest

/-- Sets the short options of one argument. If a request ends the reading, it is answered; else the
options. -/
def ofShorts (o : Options) : List Char → Option (Options ⊕ Request)
  | [] => some (.inl o)
  | 'v' :: rest => do ofShorts (← o.setVerbose) rest
  | 'h' :: _ => some (.inr .help)
  | 'V' :: _ => some (.inr .version)
  | _ :: _ => none

/-- What an argument is. -/
inductive Shape
  /-- Two dashes alone. -/
  | separator
  /-- Two dashes, a name, and a value if there is an equals sign. -/
  | long (name : String) (value : Option String)
  /-- One dash and letters. -/
  | short (letters : List Char)
  | number (text : String)
deriving DecidableEq, Repr

/-- Divides the text of a long option at the first equals sign. -/
def divide (text : List Char) : Shape :=
  let name := String.ofList (text.takeWhile (fun c => c != '='))
  match text.dropWhile (fun c => c != '=') with
  | [] => .long name none
  | _ :: value => .long name (some (String.ofList value))

/-- What an argument is, by its dashes. A dash alone is no option. -/
def shape (argument : String) : Shape :=
  match argument.toList with
  | ['-', '-'] => .separator
  | '-' :: '-' :: text => divide text
  | '-' :: letter :: letters => .short (letter :: letters)
  | _ => .number argument

/-- The request of arguments, where the options `o` are already set. -/
def ofArgumentsAfter (o : Options) : List String → Option Request
  | [] => some (.run o)
  | argument :: rest =>
    match shape argument with
    | .separator => ofNumbers o rest
    | .number text => do ofArgumentsAfter (← o.setNumber text) rest
    | .short letters => do
      match ← ofShorts o letters with
      | .inl o => ofArgumentsAfter o rest
      | .inr request => return request
    | .long name (some value) => do ofArgumentsAfter (← o.setValued name value) rest
    | .long name none =>
      if name = "help" then some .help
      else if name = "version" then some .version
      else if name = "dump-bytecode" then do ofArgumentsAfter (← o.setDumpsCode) rest
      else if name = "verbose" then do ofArgumentsAfter (← o.setVerbose) rest
      else
        match rest with
        | value :: rest => do ofArgumentsAfter (← o.setValued name value) rest
        | [] => none

/-- The request of arguments, if they can be understood. -/
def ofArguments (arguments : List String) : Option Request :=
  ofArgumentsAfter Options.none arguments

end Request

end TalkMachine.CommandLine
