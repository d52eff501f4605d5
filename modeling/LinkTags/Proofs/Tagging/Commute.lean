import LinkTags.Proofs.Tagging.Inverse
import Mathlib.Data.List.Nodup
import Mathlib.Data.List.Perm.Basic

/-!
# Tagging in any order

What tagging a file comes to is a new link: where it is, under which name, and to what file
(`Context.Places`). It stays the same with more in the tree, as long as its place is free. So
files that can be tagged one by one, with links in different places, can be tagged one after
the other in any order, and the context at the end does not depend on it (`tagEach_perm`).

## Implementation notes

New links are kept in a list, from a context without them to one with all of them
(`Context.LinksAdded`). Two that are neighbours can change places (`LinkAdded.swap`), hence
any two orders lead to the same context. None of this looks at paths: a new link may well lie
on the way that another file is given by, but then that way was there before.
-/

namespace LinkTags

/-- A link to a file that is added to a directory under a name. -/
structure NewLink where
  directory : Location
  name : Name
  inode : Inode
  deriving DecidableEq

/-- Where a new link is. -/
abbrev NewLink.location (link : NewLink) : Location :=
  link.name :: link.directory

/-- Where a new link goes: the directory as reached, and what it is called there. -/
def NewLink.destination (link : NewLink) : Place × Component :=
  (.live link.directory, link.name.toComponent)

theorem NewLink.destination_eq {a b : NewLink} (h : a.location = b.location) :
    a.destination = b.destination := by
  obtain ⟨hname, hdirectory⟩ := List.cons.inj h
  rw [destination, destination, hname, hdirectory]

namespace Context

variable {less middle more start context after : Context} {file directory path : Path}

/-! ## Several links more -/

/-- Two links that are added one after the other can be added in the other order. -/
theorem LinkAdded.swap {first second : NewLink}
    (hfirst : less.LinkAdded middle first.directory first.name first.inode)
    (hsecond : middle.LinkAdded more second.directory second.name second.inode) :
    ∃ other, less.LinkAdded other second.directory second.name second.inode ∧
      other.LinkAdded more first.directory first.name first.inode := by
  have hthere : more.files.node? first.location = some (.file first.inode) :=
    hsecond.node?_of_less hfirst.node?_self
  have hremoved := linkAdded_eraseLink hthere
  have hdiffer : second.location ≠ first.location := by
    intro hsame
    have hfree : middle.files.node? second.location = none := hsecond.free
    rw [hsame, hfirst.node?_self] at hfree
    contradiction
  have hbefore : less.files.node? second.location = none := by
    rw [← hfirst.node?_of_ne hdiffer]
    exact hsecond.free
  refine ⟨more.eraseLink first.location, ⟨?_, hbefore, ?_⟩, hremoved⟩
  · exact hremoved.cwd.symm.trans (hsecond.cwd.trans hfirst.cwd)
  · intro other
    by_cases hother : other = first.location
    · subst hother
      rw [if_neg hdiffer.symm]
      exact hremoved.free.trans hfirst.free.symm
    · rw [← hremoved.node?_of_ne hother, hsecond.node?, hfirst.node?_of_ne hother]

/-- One context has some links that the other lacks, each in a place of its own, and they
differ in nothing else. -/
inductive LinksAdded : Context → List NewLink → Context → Prop where
  | nil (context : Context) : LinksAdded context [] context
  | cons {less middle more : Context} {link : NewLink} {links : List NewLink}
      (hlink : less.LinkAdded middle link.directory link.name link.inode)
      (hrest : LinksAdded middle links more) : LinksAdded less (link :: links) more

namespace LinksAdded

variable {link : NewLink} {links others : List NewLink}

theorem within (h : less.LinksAdded links more) : less.Within more := by
  induction h with
  | nil context => exact .refl context
  | cons hlink _ ih => exact hlink.within.trans ih

/-- Links to regular files are nothing that a walk goes on from. -/
theorem carries_back (h : less.LinksAdded links more)
    (hregular : ∀ link ∈ links, link.inode.kind = .regular) :
    more.files.Carries less.files := by
  induction h with
  | nil context => exact fun _ _ _ hnode => hnode
  | cons hlink _ ih =>
      rw [List.forall_mem_cons] at hregular
      exact (ih hregular.2).trans (hlink.carries_back hregular.1)

/-- The order in which links are added does not matter. -/
theorem perm (h : less.LinksAdded links more) (hperm : links.Perm others) :
    less.LinksAdded others more := by
  induction hperm generalizing less with
  | nil => exact h
  | cons link _ ih =>
      cases h with
      | cons hlink hrest => exact .cons hlink (ih hrest)
  | swap first second rest =>
      cases h with
      | cons hfirst hmore =>
          cases hmore with
          | cons hsecond hrest =>
              obtain ⟨other, hsecond', hfirst'⟩ := hfirst.swap hsecond
              exact .cons hsecond' (.cons hfirst' hrest)
  | trans _ _ ihFirst ihSecond => exact ihSecond (ihFirst h)

/-- The links can be added in one way only. -/
theorem unique {other : Context} (h : less.LinksAdded links more)
    (hother : less.LinksAdded links other) : other = more := by
  induction h generalizing other with
  | nil context =>
      cases hother
      rfl
  | cons hlink _ ih =>
      cases hother with
      | cons hlink' hrest' =>
          obtain rfl := hlink.more_unique hlink'
          exact ih hrest'

/-- The first link can be left out, as if it had been added last. -/
theorem exists_without (h : less.LinksAdded (link :: links) more) :
    ∃ other, less.LinksAdded links other ∧
      other.LinkAdded more link.directory link.name link.inode := by
  induction links generalizing less with
  | nil =>
      cases h with
      | cons hlink hrest =>
          cases hrest
          exact ⟨less, .nil less, hlink⟩
  | cons next rest ih =>
      cases h with
      | cons hlink hmore =>
          cases hmore with
          | cons hnext hrest =>
              obtain ⟨between, hnext', hlink'⟩ := hlink.swap hnext
              obtain ⟨other, hother, hlast⟩ := ih (.cons hlink' hrest)
              exact ⟨other, .cons hnext' hother, hlast⟩

end LinksAdded

/-! ## The link that tagging makes -/

/-- Tagging the file with the directory makes the new link, spelled by the path. -/
structure Places (context : Context) (file directory path : Path) (link : NewLink) : Prop where
  names : ∃ above, context.lookupEntry file = .ok (.file above link.name link.inode)
  leads : context.lookup directory = .ok (.directory (.live link.directory))
  path_eq : path = directory.join link.name.path
  short : ¬path.isTooLong = true

theorem exists_places (h : context.tag file directory = .ok (path, after)) :
    ∃ link : NewLink, context.Places file directory path link ∧
      context.LinkAdded after link.directory link.name link.inode := by
  obtain ⟨above, location, name, inode, htagged⟩ := exists_tagged h
  exact ⟨⟨location, name, inode⟩, ⟨⟨above, htagged.names⟩, htagged.leads, htagged.link_eq,
    not_isTooLong_of_tag h⟩, htagged.added⟩

namespace Places

variable {link : NewLink}

theorem mono (h : less.Places file directory path link) (hwithin : less.Within more) :
    more.Places file directory path link := by
  obtain ⟨above, hfile⟩ := h.names
  exact ⟨⟨above, hwithin.walkFrom hfile⟩, hwithin.walkFrom h.leads, h.path_eq, h.short⟩

theorem tag_eq_ok (h : context.Places file directory path link)
    (hadded : context.LinkAdded after link.directory link.name link.inode) :
    context.tag file directory = .ok (path, after) := by
  obtain ⟨above, hfile⟩ := h.names
  exact Tagged.tag_eq_ok ⟨hfile, h.leads, h.path_eq, hadded⟩ h.short

/-- The link can be made if there is nothing in its place. -/
theorem exists_added (h : context.Places file directory path link)
    (hfree : context.files.node? link.location = none) :
    ∃ after, context.LinkAdded after link.directory link.name link.inode := by
  have hdirectory : context.files.IsDirectory link.directory := isDirectory_of_lookup h.leads
  obtain ⟨after, hafter⟩ := exists_addNode (.file link.inode) hdirectory hfree
  exact ⟨after, linkAdded_of_addNode hafter⟩

/-- The link is removed by untagging. -/
theorem untag_eq_ok (h : context.Places file directory path link)
    (hremoved : after.LinkAdded context link.directory link.name link.inode) :
    context.untag file directory = .ok (path, after) := by
  obtain ⟨above, hfile⟩ := h.names
  have hlinked : context.lookupEntry path =
      .ok (.file link.directory link.name link.inode) := by
    have hshort := h.short
    rw [h.path_eq] at hshort ⊢
    rw [lookupEntry_join_file h.leads hremoved.node?_self, if_neg hshort]
  exact Untagged.untag_eq_ok ⟨hfile, h.leads, h.path_eq, hlinked, hremoved⟩

end Places

/-! ## Tagging one file after the other -/

/-- Tag files with directories, each in the context that the ones before it have left, and
whatever came of them. -/
def tagEach (context : Context) :
    List (Path × Path) → List (Except TaggingError Path) × Context
  | [] => ([], context)
  | (file, directory) :: rest =>
      match context.tag file directory with
      | .ok (link, after) =>
          let (others, last) := tagEach after rest
          (.ok link :: others, last)
      | .error e =>
          let (others, last) := tagEach context rest
          (.error e :: others, last)

/-- Where a file is to be linked: the directory that is led to, and the name that the path of
the file ends in. -/
def destination? (context : Context) (file directory : Path) : Option (Place × Component) :=
  match context.lookup directory, file.fileName? with
  | .ok (.directory place), some name => some (place, name)
  | _, _ => none

/-- The file can be tagged with the directory, and all that this does is make the new link. -/
def CallPlaces (context : Context) (call : Path × Path) (link : NewLink) : Prop :=
  ∃ path after, context.tag call.1 call.2 = .ok (path, after) ∧
    context.Places call.1 call.2 path link ∧
    context.LinkAdded after link.directory link.name link.inode

variable {calls order : List (Path × Path)} {links : List NewLink}

theorem exists_callPlaces
    (h : ∀ call ∈ calls, ∃ result, context.tag call.1 call.2 = .ok result) :
    ∃ links, List.Forall₂ context.CallPlaces calls links := by
  induction calls with
  | nil => exact ⟨[], .nil⟩
  | cons call rest ih =>
      rw [List.forall_mem_cons] at h
      obtain ⟨⟨⟨path, after⟩, htag⟩, hrest⟩ := h
      obtain ⟨links, hlinks⟩ := ih hrest
      obtain ⟨link, hplaces, hadded⟩ := exists_places htag
      exact ⟨link :: links, .cons ⟨path, after, htag, hplaces, hadded⟩ hlinks⟩

/-- There is nothing in the places of the new links. -/
theorem free_of_callPlaces (h : List.Forall₂ context.CallPlaces calls links) :
    ∀ link ∈ links, context.files.node? link.location = none := by
  induction h with
  | nil => exact List.forall_mem_nil _
  | cons hcall _ ih =>
      obtain ⟨_, _, _, _, hadded⟩ := hcall
      exact List.forall_mem_cons.2 ⟨hadded.free, ih⟩

theorem destination?_of_callPlaces {call : Path × Path} {link : NewLink}
    (h : context.CallPlaces call link) :
    context.destination? call.1 call.2 = some link.destination := by
  obtain ⟨_, _, _, hplaces, _⟩ := h
  obtain ⟨above, hfile⟩ := hplaces.names
  obtain ⟨_, hname⟩ := lookupEntry_eq_file hfile
  unfold destination?
  rw [hplaces.leads, hname]
  rfl

/-- Files with different destinations get different links. -/
theorem nodup_of_callPlaces (h : List.Forall₂ context.CallPlaces calls links)
    (hdistinct : (calls.map fun call => context.destination? call.1 call.2).Nodup) :
    (links.map NewLink.destination).Nodup := by
  have hsame : (calls.map fun call => context.destination? call.1 call.2) =
      (links.map NewLink.destination).map some := by
    clear hdistinct
    induction h with
    | nil => rfl
    | cons hcall _ ih =>
        rw [List.map_cons, List.map_cons, List.map_cons, ih, destination?_of_callPlaces hcall]
  rw [hsame] at hdistinct
  exact List.Nodup.of_map some hdistinct

/-- Files that can be tagged with less in the tree are tagged one after the other, if the
places of their links are free and different. -/
theorem tagEach_of_callPlaces (hwithin : start.Within context)
    (h : List.Forall₂ start.CallPlaces calls links)
    (hfree : ∀ link ∈ links, context.files.node? link.location = none)
    (hnodup : (links.map NewLink.destination).Nodup) :
    List.Forall₂ (fun call result => ∃ path after,
        start.tag call.1 call.2 = .ok (path, after) ∧ result = .ok path)
      calls (context.tagEach calls).1 ∧
    context.LinksAdded links (context.tagEach calls).2 := by
  induction h generalizing context with
  | nil => exact ⟨.nil, .nil context⟩
  | @cons call link calls links hcall _ ih =>
      obtain ⟨file, directory⟩ := call
      obtain ⟨path, alone, halone, hplaces, _⟩ := hcall
      rw [List.forall_mem_cons] at hfree
      rw [List.map_cons, List.nodup_cons] at hnodup
      have hhere := hplaces.mono hwithin
      obtain ⟨after, hadded⟩ := hhere.exists_added hfree.1
      have hrest : ∀ other ∈ links, after.files.node? other.location = none := by
        intro other hother
        rw [hadded.node?_of_ne, hfree.2 other hother]
        intro hsame
        have hmem := List.mem_map_of_mem (f := NewLink.destination) hother
        rw [NewLink.destination_eq hsame] at hmem
        exact hnodup.1 hmem
      obtain ⟨hresults, hlast⟩ := ih (hwithin.trans hadded.within) hrest hnodup.2
      rw [tagEach, hhere.tag_eq_ok hadded]
      exact ⟨.cons ⟨path, alone, halone, rfl⟩ hresults, .cons hadded hlast⟩

/-- Of files that can each be tagged alone, with links in different places. In whatever order
they are tagged one after the other, every one is, and its link is spelled as it is alone.
All orders leave the same context. -/
theorem tagEach_perm
    (hok : ∀ call ∈ calls, ∃ result, context.tag call.1 call.2 = .ok result)
    (hdistinct : (calls.map fun call => context.destination? call.1 call.2).Nodup)
    (hperm : order.Perm calls) :
    List.Forall₂ (fun call result => ∃ path after,
        context.tag call.1 call.2 = .ok (path, after) ∧ result = .ok path)
      order (context.tagEach order).1 ∧
    (context.tagEach order).2 = (context.tagEach calls).2 := by
  have hcontext := Within.refl context
  obtain ⟨links, hlinks⟩ := exists_callPlaces hok
  obtain ⟨others, hothers, hsame⟩ := List.perm_comp_forall₂ hperm hlinks
  have hnodup := nodup_of_callPlaces hlinks hdistinct
  have hnodup' : (others.map NewLink.destination).Nodup := (hsame.map _).nodup_iff.2 hnodup
  obtain ⟨_, hlast⟩ :=
    tagEach_of_callPlaces hcontext hlinks (free_of_callPlaces hlinks) hnodup
  obtain ⟨hresults, hlast'⟩ :=
    tagEach_of_callPlaces hcontext hothers (free_of_callPlaces hothers) hnodup'
  exact ⟨hresults, hlast.unique (hlast'.perm hsame)⟩

/-- Files on the desk, with the directories to tag them with. -/
def deskCalls : List (Path × Path) :=
  [(.ofString "L", .ofString "A"), (.ofString "A/x", .ofString "."),
    (.ofString "L", .ofString "L")]

/-- The symbolic link `L` gets a link in `A`, and one in `B`, to which it leads itself. The
file gets one beside it. All three are there in the other order too. -/
theorem desk_tagEach_perm :
    (desk.tagEach deskCalls.reverse).1 =
        [.ok (.ofString "L/L"), .ok (.ofString "./x"), .ok (.ofString "A/L")] ∧
      (desk.tagEach deskCalls.reverse).2 = (desk.tagEach deskCalls).2 := by
  have hok : ∀ call ∈ deskCalls, ∃ result, desk.tag call.1 call.2 = .ok result := by
    simp only [deskCalls, List.forall_mem_cons]
    exact ⟨⟨_, rfl⟩, ⟨_, rfl⟩, ⟨_, rfl⟩, List.forall_mem_nil _⟩
  have hdistinct : (deskCalls.map fun call => desk.destination? call.1 call.2).Nodup := by
    decide
  obtain ⟨_, hlast⟩ := tagEach_perm hok hdistinct (List.reverse_perm deskCalls)
  exact ⟨by decide +kernel, hlast⟩

end Context

end LinkTags
