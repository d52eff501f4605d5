import LinkTags.Command.Program

/-!
# Runs

Whatever is asked of a library, and of the program as a whole, comes down to deeds of
three kinds: a marker directory is made, a file is tagged, or a file is untagged. An
operation attempts its deeds one after the other, and one that fails changes nothing
(`performAll_eq`). Those that succeed are the changes of a run.
-/

namespace LinkTags

/-- What can be asked of the library and of the program. What is read in a library has the
library's root for `root` and its `resolveAsPath` for `resolve`. -/
inductive Operation where
  | initLibrary (directory : Path)
  | init (path : Path)
  | tag (file directory : Path)
  | untag (file directory : Path)
  | change (action : Action) (library : Library) (file : Path) (name : String)
  | search (resolve : String → Path) (query : Query)
  | links (root file : Path)
  | tagsOf (root file : Path)
  | tagsIn (root directory : Path)
  | find (start : Path)
  | call (given : Call)

/-- What an operation replies. -/
inductive Reply where
  | initialized (result : Except InitError Unit)
  | library (result : Except InitError Library)
  | changed (result : Except TaggingError Path)
  | searched (result : Except SearchError (List Path))
  | links (result : Except FileError (List Path))
  | tags (result : Except Tag.Error (List Tag))
  | found (result : Except FileError (Option Library))
  | answered (answer : Answer)

/-- The value that an operation gives, and the context it leaves: a failure leaves the
context as it was. -/
def Context.settle {ε α : Type} (context : Context) (result : Except ε (α × Context)) :
    Except ε α × Context :=
  match result with
  | .ok (value, after) => (.ok value, after)
  | .error e => (.error e, context)

/-- Perform an operation: what it replies, and the context it leaves. -/
def Operation.perform (context : Context) : Operation → Reply × Context
  | .initLibrary directory =>
      (context.settle ((context.initLibrary directory).map ((), ·))).map .initialized id
  | .init path => (context.settle (Library.init context path)).map .library id
  | .tag file directory => (context.settle (context.tag file directory)).map .changed id
  | .untag file directory => (context.settle (context.untag file directory)).map .changed id
  | .change action library file name =>
      (context.settle (action.attempt library context file name)).map .changed id
  | .search resolve query => (.searched (context.search resolve query), context)
  | .links root file => (.links (context.links root file), context)
  | .tagsOf root file => (.tags (context.tagsOf root file), context)
  | .tagsIn root directory => (.tags (context.tagsIn root directory), context)
  | .find start => (.found (Library.find context start), context)
  | .call given => (context.call given).map .answered id

/-- The context that operations leave, performed one after the other. -/
def Context.performAll (context : Context) : List Operation → Context
  | [] => context
  | operation :: rest => performAll (operation.perform context).2 rest

/-! ## Deeds -/

/-- Something that changes the tree if it succeeds. -/
inductive Deed where
  | init (directory : Path)
  | tag (file directory : Path)
  | untag (file directory : Path)
  deriving DecidableEq

/-- The context after a deed, if it succeeds. -/
def Deed.attempt (context : Context) : Deed → Option Context
  | .init directory =>
      match context.initLibrary directory with
      | .ok after => some after
      | .error _ => none
  | .tag file directory =>
      match context.tag file directory with
      | .ok (_, after) => some after
      | .error _ => none
  | .untag file directory =>
      match context.untag file directory with
      | .ok (_, after) => some after
      | .error _ => none

/-- The deed that an action on a file and a tag is. -/
def Action.deed (action : Action) (library : Library) (file : Path) (name : String) : Deed :=
  match action with
  | .tag => .tag file (library.resolveAsPath name)
  | .untag => .untag file (library.resolveAsPath name)

/-- What a command attempts: nothing on files if it finds no library. -/
def Invocation.deeds (context : Context) (invocation : Invocation) : List Deed :=
  match invocation.command with
  | .init path => [.init path]
  | .change action files tags =>
      match Library.find context (invocation.root.getD ⟨[]⟩) with
      | .ok (some library) => (allPairs files tags).map fun (file, name) =>
          action.deed library file name
      | _ => []
  | .search _ => []
  | .list _ _ => []

/-- What an operation attempts. -/
def Operation.deeds (context : Context) : Operation → List Deed
  | .initLibrary directory => [.init directory]
  | .init path => [.init path]
  | .tag file directory => [.tag file directory]
  | .untag file directory => [.untag file directory]
  | .change action library file name => [action.deed library file name]
  | .search _ _ => []
  | .links _ _ => []
  | .tagsOf _ _ => []
  | .tagsIn _ _ => []
  | .find _ => []
  | .call given =>
      match Invocation.parse given.words given.root with
      | .error _ => []
      | .ok invocation => invocation.deeds context

namespace Context

/-- What operations attempt, performed one after the other. -/
def deeds (context : Context) : List Operation → List Deed
  | [] => []
  | operation :: rest =>
      operation.deeds context ++ deeds (operation.perform context).2 rest

/-- The context that deeds leave, attempted one after the other. -/
def doAll (context : Context) : List Deed → Context
  | [] => context
  | deed :: rest => doAll ((deed.attempt context).getD context) rest

end Context

/-! ## Operations are deeds -/

namespace Context

variable {context : Context}

theorem doAll_append (first second : List Deed) :
    context.doAll (first ++ second) = (context.doAll first).doAll second := by
  induction first generalizing context with
  | nil => rfl
  | cons deed rest ih => exact ih

theorem doAll_singleton (deed : Deed) :
    context.doAll [deed] = (deed.attempt context).getD context := rfl

theorem getD_attempt_init (directory : Path) :
    ((Deed.init directory).attempt context).getD context =
      (context.settle ((context.initLibrary directory).map ((), ·))).2 := by
  rw [Deed.attempt]
  cases context.initLibrary directory <;> rfl

end Context

theorem Action.attempt_deed {context : Context} (action : Action) (library : Library)
    (file : Path) (name : String) :
    (action.deed library file name).attempt context =
      match action.attempt library context file name with
      | .ok (_, after) => some after
      | .error _ => none := by
  cases action <;> rfl

namespace Context

variable {context : Context}

/-- A batch leaves what its deeds leave. -/
theorem attemptAll_snd (action : Action) (library : Library) (pairs : List (Path × String)) :
    (action.attemptAll library context pairs).2 =
      context.doAll (pairs.map fun (file, name) => action.deed library file name) := by
  induction pairs generalizing context with
  | nil => rfl
  | cons pair rest ih =>
      obtain ⟨file, name⟩ := pair
      rw [List.map_cons, doAll, Action.attempt_deed, Action.attemptAll]
      cases action.attempt library context file name with
      | error e => exact ih
      | ok result => exact ih

theorem runInit_context (path : Path) :
    (context.runInit path).context = ((Deed.init path).attempt context).getD context := by
  rw [runInit, Deed.attempt]
  cases context.initLibrary path <;> rfl

theorem runSearch_context (library : Library) (words : List String) :
    (context.runSearch library words).context = context := by
  rw [runSearch]
  cases Query.parse (" ".intercalate words) with
  | error e => rfl
  | ok query =>
      dsimp only
      cases library.search context query <;> rfl

theorem runList_context (library : Library) (links : Bool) (name : String) :
    (context.runList library links name).context = context := by
  rw [runList]
  repeat' split
  all_goals rfl

/-- A command that changes nothing in the library it finds changes nothing. -/
theorem withLibrary_context {root : Option Path} {run : Library → Report}
    (h : ∀ library, (run library).context = context) :
    (context.withLibrary root run).context = context := by
  unfold withLibrary
  dsimp only
  split
  · rfl
  · rfl
  next library _ => exact h library

/-- A command leaves what its deeds leave. -/
theorem run_context (invocation : Invocation) :
    (context.run invocation).context = context.doAll (invocation.deeds context) := by
  obtain ⟨root, verbosity, command⟩ := invocation
  cases command with
  | init path => exact runInit_context path
  | change action files tags =>
      dsimp only [run, withLibrary, Invocation.deeds]
      cases Library.find context (root.getD ⟨[]⟩) with
      | error e => rfl
      | ok found =>
          cases found with
          | none => rfl
          | some library => exact attemptAll_snd action library (allPairs files tags)
  | search words => exact withLibrary_context fun library => runSearch_context library words
  | list links name => exact withLibrary_context fun library => runList_context library links name

/-- An operation leaves what its deeds leave. -/
theorem perform_snd (operation : Operation) :
    (operation.perform context).2 = context.doAll (operation.deeds context) := by
  cases operation with
  | initLibrary directory =>
      exact (getD_attempt_init directory).symm
  | init path =>
      rw [Operation.deeds, doAll_singleton, getD_attempt_init, Operation.perform, Library.init]
      cases context.initLibrary path <;> rfl
  | tag file directory =>
      rw [Operation.deeds, doAll_singleton, Deed.attempt, Operation.perform]
      cases context.tag file directory <;> rfl
  | untag file directory =>
      rw [Operation.deeds, doAll_singleton, Deed.attempt, Operation.perform]
      cases context.untag file directory <;> rfl
  | change action library file name =>
      rw [Operation.deeds, doAll_singleton, Action.attempt_deed, Operation.perform]
      cases action.attempt library context file name <;> rfl
  | search resolve query => rfl
  | links root file => rfl
  | tagsOf root file => rfl
  | tagsIn root directory => rfl
  | find start => rfl
  | call given =>
      unfold Operation.perform Operation.deeds Context.call
      dsimp only
      cases Invocation.parse given.words given.root with
      | error stop => rfl
      | ok invocation => exact run_context invocation

/-- A run leaves what its deeds leave, each attempted after those before it. -/
theorem performAll_eq (operations : List Operation) :
    context.performAll operations = context.doAll (context.deeds operations) := by
  induction operations generalizing context with
  | nil => rfl
  | cons operation rest ih =>
      rw [performAll, deeds, doAll_append, ← perform_snd]
      exact ih

end Context

end LinkTags
