import LinkTags.Command.Basic

/-!
# Arguments

The words of a command line are read from left to right, at two levels: before the
name of the command and after it. An option that takes a value waits for the word
after it; `-f` goes on taking words until another option comes. After `--` nothing
is an option. The first thing that does not fit decides the outcome, whatever follows
it. In place of a command, `help` may stand alone or before one name of a command.

## Implementation notes

Words are paths, since they need not be text; which words a command takes, and after
which others, is part of its grammar. A search takes every word as one of its query
once the query has begun, and takes unknown options for words even before.
-/

namespace LinkTags

/-- Why no command is run: the words are wrong, or they ask for something else. -/
inductive Stop where
  | usage
  | help
  | version
  deriving DecidableEq

/-- The options of the program. -/
inductive Flag where
  | root
  | verbose
  | help
  | version
  | links
  | files
  deriving DecidableEq

namespace Flag

/-- The name of an option after two hyphens, if it has one. -/
def longName? : Flag → Option String
  | root => some "root"
  | verbose => some "verbose"
  | help => some "help"
  | version => some "version"
  | links => some "links"
  | files => none

/-- The letter of an option after one hyphen, if it has one. -/
def letter? : Flag → Option Char
  | root => none
  | verbose => some 'v'
  | help => some 'h'
  | version => some 'V'
  | links => none
  | files => some 'f'

end Flag

/-- The commands by name. -/
inductive CommandName where
  | init
  | change (action : Action)
  | search
  | list
  deriving DecidableEq

/-- What stands where a command is named: its name, or a call for help. -/
inductive Topic where
  | command (name : CommandName)
  | help
  deriving DecidableEq

/-- The topic that a text names. -/
def Topic.ofString? : String → Option Topic
  | "init" => some (.command .init)
  | "tag" => some (.command (.change .tag))
  | "untag" => some (.command (.change .untag))
  | "search" => some (.command .search)
  | "list" => some (.command .list)
  | "help" => some .help
  | _ => none

/-- The topic that a word names. -/
def Topic.ofPath? (word : Path) : Option Topic :=
  word.toString?.bind Topic.ofString?

/-- What may be said at one level of the command line. -/
structure Grammar where
  flags : List Flag
  /-- Words that look like unknown options are taken as words. -/
  greedy : Bool
  /-- Words that belong to no option may come before `--`. -/
  bare : Bool
  /-- A word that belongs to no option may follow the earlier ones. -/
  admits : (earlier : List Path) → (word : Path) → Bool

namespace Grammar

/-- What may be said before the name of the command. -/
def top : Grammar := ⟨[.root, .verbose, .help, .version], false, false, fun _ _ => false⟩

/-- What may be said after the name of the command. One word at most is the path to
make a library of, and one is the name to list. All but paths have to be text. -/
def of : CommandName → Grammar
  | .init =>
      ⟨[.root, .verbose, .help], false, true, fun earlier word =>
        earlier = [] ∧ word.bytes ≠ []⟩
  | .change _ =>
      ⟨[.root, .verbose, .help, .files], false, false, fun _ word => word.toString?.isSome⟩
  | .search => ⟨[.root, .verbose, .help], true, true, fun _ word => word.toString?.isSome⟩
  | .list =>
      ⟨[.root, .verbose, .help, .links], false, true, fun earlier word =>
        earlier = [] ∧ word.toString?.isSome⟩

/-- The option of a long name. -/
def long? (grammar : Grammar) (name : String) : Option Flag :=
  grammar.flags.find? fun flag => flag.longName? = some name

/-- The option of a letter, given as its byte. -/
def letter? (grammar : Grammar) (letter : UInt8) : Option Flag :=
  grammar.flags.find? fun flag => flag.letter? = some (Char.ofNat letter.toNat)

end Grammar

/-- What a word looks like. -/
inductive Look where
  | separator
  | long (name : List UInt8) (value : Option (List UInt8))
  | letters (letters : List UInt8)
  | plain
  deriving DecidableEq

/-- The byte `-`. -/
def hyphen : UInt8 := 0x2d

/-- The byte `=`. -/
def equalsSign : UInt8 := 0x3d

/-- What a word looks like. A hyphen alone is a plain word. -/
def Look.of (word : Path) : Look :=
  match word.bytes with
  | [] => .plain
  | first :: rest =>
      if first ≠ hyphen then .plain
      else
        match rest with
        | [] => .plain
        | second :: others =>
            if second ≠ hyphen then .letters rest
            else if others = [] then .separator
            else
              .long (others.takeWhile (· ≠ equalsSign))
                (match others.dropWhile (· ≠ equalsSign) with
                | [] => none
                | _ :: value => some value)

/-- An option that waits for its value, or goes on taking values. -/
inductive Waiting where
  | root
  | firstFile
  | moreFiles
  deriving DecidableEq

/-- What has been said at one level so far. Words come last one first. -/
structure Said where
  root : Option Path
  verbosity : Nat
  links : Bool
  files : List Path
  words : List Path
  waiting : Option Waiting
  /-- After `--`, nothing is an option. -/
  literal : Bool

namespace Said

/-- Nothing has been said. -/
def nothing : Said := ⟨none, 0, false, [], [], none, false⟩

/-- Nothing more comes for the option that waits; it must have its value. -/
def settle (said : Said) : Except Stop Said :=
  match said.waiting with
  | none | some .moreFiles => .ok { said with waiting := none }
  | some .root | some .firstFile => .error .usage

/-- A value for the root, which may be given once and not be empty. -/
def giveRoot (said : Said) (value : List UInt8) : Except Stop Said :=
  if value = [] ∨ said.root.isSome then .error .usage
  else .ok { said with root := some ⟨value⟩, waiting := none }

/-- A file, whose path may not be empty. -/
def giveFile (said : Said) (value : List UInt8) (waiting : Option Waiting) :
    Except Stop Said :=
  if value = [] then .error .usage
  else .ok { said with files := ⟨value⟩ :: said.files, waiting }

/-- An option, with the value attached to it if there is one. -/
def giveFlag (said : Said) (flag : Flag) (value : Option (List UInt8)) :
    Except Stop Said :=
  match said.settle with
  | .error stop => .error stop
  | .ok said =>
      match flag, value with
      | .root, some value => said.giveRoot value
      | .root, none => .ok { said with waiting := some .root }
      | .files, some value => said.giveFile value none
      | .files, none => .ok { said with waiting := some .firstFile }
      | .verbose, none => .ok { said with verbosity := said.verbosity + 1 }
      | .links, none =>
          if said.links then .error .usage else .ok { said with links := true }
      | .help, none => .error .help
      | .version, none => .error .version
      | _, some _ => .error .usage

/-- The letters after a hyphen, each an option. The first that takes a value has the
rest for it, with or without an equals sign between. -/
def giveLetters (grammar : Grammar) (said : Said) : List UInt8 → Except Stop Said
  | [] => .ok said
  | letter :: rest =>
      match grammar.letter? letter with
      | none => .error .usage
      | some .files =>
          match rest with
          | [] => said.giveFlag .files none
          | first :: others =>
              said.giveFlag .files (some (if first = equalsSign then others else rest))
      | some flag =>
          match said.giveFlag flag none with
          | .error stop => .error stop
          | .ok next => giveLetters grammar next rest

/-- A word that is no option: a value, if an option waits for one, else one that the
grammar has to admit. -/
def giveWord (grammar : Grammar) (said : Said) (word : Path) : Except Stop Said :=
  match said.waiting with
  | some .root => said.giveRoot word.bytes
  | some .firstFile | some .moreFiles => said.giveFile word.bytes (some .moreFiles)
  | none =>
      if (said.literal ∨ grammar.bare) ∧ grammar.admits said.words word then
        .ok { said with words := word :: said.words }
      else .error .usage

/-- One more word at this level. -/
def give (grammar : Grammar) (said : Said) (word : Path) : Except Stop Said :=
  if said.literal ∨ (grammar.greedy ∧ said.words ≠ []) then said.giveWord grammar word
  else
    match Look.of word with
    | .plain => said.giveWord grammar word
    | .separator =>
        match said.settle with
        | .error stop => .error stop
        | .ok said => .ok { said with literal := true }
    | .long name value =>
        match (⟨name⟩ : Path).toString? with
        | none => .error .usage
        | some name =>
            match grammar.long? name with
            | some flag => said.giveFlag flag value
            | none => if grammar.greedy then said.giveWord grammar word else .error .usage
    | .letters letters =>
        if grammar.greedy ∧ letters.any (fun letter => (grammar.letter? letter).isNone) then
          said.giveWord grammar word
        else said.giveLetters grammar letters

/-- All words that are left at this level. -/
def giveAll (grammar : Grammar) (said : Said) : List Path → Except Stop Said
  | [] => said.settle
  | word :: rest =>
      match said.give grammar word with
      | .error stop => .error stop
      | .ok next => giveAll grammar next rest

/-- The words that belong to no option, in the order they were said in. -/
def inOrder (said : Said) : List Path := said.words.reverse

end Said

/-- The texts that words spell, all of which have to be text. -/
def textsOf : List Path → Except Stop (List String)
  | [] => .ok []
  | word :: rest =>
      match word.toString? with
      | none => .error .usage
      | some text =>
          match textsOf rest with
          | .error stop => .error stop
          | .ok texts => .ok (text :: texts)

/-- The command of a name, from what was said after the name. -/
def CommandName.command (name : CommandName) (said : Said) : Except Stop Command :=
  match name with
  | .init =>
      match said.inOrder with
      | [] => .ok (.init ⟨[dot]⟩)
      | [path] => .ok (.init path)
      | _ => .error .usage
  | .change action =>
      match textsOf said.inOrder with
      | .error stop => .error stop
      | .ok tags =>
          if said.files = [] ∨ tags = [] then .error .usage
          else .ok (.change action said.files.reverse tags)
  | .search =>
      match textsOf said.inOrder with
      | .error stop => .error stop
      | .ok words => if words = [] then .error .usage else .ok (.search words)
  | .list =>
      match said.inOrder with
      | [word] =>
          match word.toString? with
          | some name => .ok (.list said.links name)
          | none => .error .usage
      | _ => .error .usage

/-- How a call for help ends: well if nothing follows it, or one name that help can be
given on, and nothing else. -/
def Stop.ofHelp : List Path → Stop
  | [] => .help
  | [word] => if (Topic.ofPath? word).isSome then .help else .usage
  | _ => .usage

namespace Invocation

/-- The root that holds: what was said after the name of the command, else before
it, else in the environment. An empty one in the environment is refused unless it
is overruled at both levels. -/
def rootOf (before after : Said) (environment : Option Path) :
    Except Stop (Option Path) :=
  if environment = some ⟨[]⟩ ∧ (before.root.isNone ∨ after.root.isNone) then .error .usage
  else .ok (after.root.or (before.root.or environment))

/-- The invocation, from what was said before and after the name of the command. -/
def ofSaid (name : CommandName) (before after : Said) (environment : Option Path) :
    Except Stop Invocation :=
  match name.command after with
  | .error stop => .error stop
  | .ok command =>
      match rootOf before after environment with
      | .error stop => .error stop
      | .ok root =>
          let verbosity := if after.verbosity = 0 then before.verbosity else after.verbosity
          .ok ⟨root, verbosity, command⟩

/-- The topic that a word names where it stands, unless an option waits for it. -/
def topic? (said : Said) (word : Path) : Option Topic :=
  if said.literal ∨ said.waiting.isSome then none else Topic.ofPath? word

/-- The invocation that the words spell, from what has been said before them. -/
def parseFrom (environment : Option Path) (said : Said) : List Path → Except Stop Invocation
  | [] => .error .usage
  | word :: rest =>
      match topic? said word with
      | some .help => .error (.ofHelp rest)
      | some (.command name) =>
          match Said.nothing.giveAll (Grammar.of name) rest with
          | .error stop => .error stop
          | .ok after => ofSaid name said after environment
      | none =>
          match said.give Grammar.top word with
          | .error stop => .error stop
          | .ok next => parseFrom environment next rest

/-- The invocation that the words of a command line spell. -/
def parse (words : List Path) (environment : Option Path) : Except Stop Invocation :=
  parseFrom environment .nothing words

end Invocation

end LinkTags
