import LinkTags.Command.Program

/-!
# Calls for a command

A call whose words ask for a command is answered with what the command reports, in the
library that is found from the root it names. Where the words say this, and what else they
say about how much is shown, makes no difference to the command.
-/

namespace LinkTags

/-- The words of a call, with its environment, ask for a command in the library found from
a path, or from the working directory. -/
def Call.Asks (given : Call) (root : Option Path) (command : Command) : Prop :=
  ∃ verbosity, Invocation.parse given.words given.root = .ok ⟨root, verbosity, command⟩

namespace Context

variable {context : Context} {given : Call} {root : Option Path} {library : Library}

/-- The library that commands are run in is found. -/
def FindsLibrary (context : Context) (root : Option Path) (library : Library) : Prop :=
  Library.find context (root.getD ⟨[]⟩) = .ok (some library)

/-- A call is answered with the report of the command. -/
theorem exists_call {command : Command} (h : given.Asks root command) :
    ∃ verbosity filter, context.call given =
      ((context.run ⟨root, verbosity, command⟩).answer filter,
        (context.run ⟨root, verbosity, command⟩).context) := by
  obtain ⟨verbosity, hparse⟩ := h
  refine ⟨verbosity, .choose verbosity given.filter, ?_⟩
  rw [call, hparse]

theorem withLibrary_eq (h : context.FindsLibrary root library) (run : Library → Report) :
    context.withLibrary root run = run library := by
  rw [FindsLibrary] at h
  rw [withLibrary, h]

theorem run_change (h : context.FindsLibrary root library) (verbosity : Nat) (action : Action)
    (files : List Path) (tags : List String) :
    context.run ⟨root, verbosity, .change action files tags⟩ =
      context.runChange library action files tags :=
  withLibrary_eq h _

theorem run_list (h : context.FindsLibrary root library) (verbosity : Nat) (links : Bool)
    (name : String) :
    context.run ⟨root, verbosity, .list links name⟩ = context.runList library links name :=
  withLibrary_eq h _

end Context

end LinkTags
