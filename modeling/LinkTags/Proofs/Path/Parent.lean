import LinkTags.Path.Parent
import LinkTags.Proofs.Path.Normal
import Mathlib.Data.List.DropRight

/-!
# Components and parents

A path is what it starts with and the pieces after it, and any beginning of these pieces
makes a path that starts the same (`components_intercalate`). So the parent of a path has
its components without the last one (`exists_parent?`), and what a name is joined to has
the components of the parent (`exists_parent?_join_component`).

Of paths that come in blocks, each block with components of its own, `unique` leaves one
path of each block (`map_components_unique`).
-/

namespace LinkTags.Path

/-- The steps of pieces that move. -/
def moving (pieces : List (List UInt8)) : List Step :=
  (pieces.map Step.ofPiece).filter (· ≠ .stay)

theorem moves_eq (path : Path) : path.moves = moving (split path.bytes) := rfl

@[simp] theorem moving_append (front back : List (List UInt8)) :
    moving (front ++ back) = moving front ++ moving back := by
  simp [moving]

@[simp] theorem moving_nil_cons (pieces : List (List UInt8)) :
    moving ([] :: pieces) = moving pieces := by
  simp [moving, Step.ofPiece, Proper]

@[simp] theorem moving_dot_cons (pieces : List (List UInt8)) :
    moving ([dot] :: pieces) = moving pieces := by
  simp [moving, Step.ofPiece, Proper, dot]

/-! ## Pieces at the end -/

theorem trim_eq_rdropWhile (pieces : List (List UInt8)) :
    trim pieces = pieces.rdropWhile fun piece => Step.ofPiece piece = .stay := rfl

theorem trim_isPrefix (pieces : List (List UInt8)) : trim pieces <+: pieces :=
  List.rdropWhile_prefix _ pieces

/-- What is cut off at the end does not move. -/
@[simp] theorem moving_trim (pieces : List (List UInt8)) :
    moving (trim pieces) = moving pieces := by
  rw [trim_eq_rdropWhile]
  induction pieces using List.reverseRecOn with
  | nil => rfl
  | append_singleton front last ih =>
      rw [List.rdropWhile_concat]
      split
      next hstays =>
        rw [ih, moving_append]
        simpa [moving] using hstays
      · rfl

/-- The last piece that is left moves. -/
theorem moving_of_trim_eq_concat {pieces front : List (List UInt8)} {last : List UInt8}
    (h : trim pieces = front ++ [last]) :
    moving pieces = moving front ++ [Step.ofPiece last] := by
  have hlast := List.rdropWhile_last_not (fun piece => Step.ofPiece piece = .stay) pieces
    (by simp [← trim_eq_rdropWhile, h])
  simp only [← trim_eq_rdropWhile, h, List.getLast_append_singleton, decide_eq_true_eq] at hlast
  rw [← moving_trim, h, moving_append]
  simp [moving, hlast]

/-! ## Where a path starts -/

/-- The pieces can follow what a path starts with. Without a slash or a `.` before them the
first of them says where the path starts, and it is empty only if it is all there is. -/
inductive Starts : List UInt8 → List (List UInt8) → Prop where
  | root (pieces : List (List UInt8)) : Starts [slash] pieces
  | here (more : List (List UInt8)) : Starts [dot] ([] :: more)
  | piece {first : List UInt8} {more : List (List UInt8)} (hdot : first ≠ [dot])
      (hempty : first = [] → more = []) : Starts [] (first :: more)

namespace Starts

variable {start : List UInt8} {pieces front : List (List UInt8)}

theorem of_isPrefix (h : Starts start pieces) (hne : front ≠ []) (hfront : front <+: pieces) :
    Starts start front := by
  obtain ⟨first, more, rfl⟩ := List.exists_cons_of_ne_nil hne
  cases h with
  | root => exact .root _
  | here =>
      obtain ⟨rfl, _⟩ := List.cons_prefix_cons.1 hfront
      exact .here more
  | piece hdot hempty =>
      obtain ⟨rfl, hmore⟩ := List.cons_prefix_cons.1 hfront
      refine .piece hdot fun hfirst => ?_
      rw [hempty hfirst] at hmore
      exact List.prefix_nil.1 hmore

theorem nil (h : Starts start pieces) : Starts start [[]] := by
  cases h with
  | root => exact .root _
  | here => exact .here []
  | piece => exact .piece (by decide) fun _ => rfl

end Starts

theorem split_cons {b : UInt8} (hb : b ≠ slash) {bytes first : List UInt8}
    {more : List (List UInt8)} (h : split bytes = first :: more) :
    split (b :: bytes) = (b :: first) :: more := by
  simp only [split, if_neg hb, h]

theorem start_root (rest : List UInt8) : start ⟨slash :: rest⟩ = [slash] := by
  simp [start, isAbsolute]

theorem start_relative {path : Path} (h : path.isAbsolute = false) {first : List UInt8}
    {more : List (List UInt8)} (hsplit : split path.bytes = first :: more) :
    path.start = if first = [dot] then [dot] else [] := by
  simp [start, h, hsplit]

theorem isAbsolute_iff_start {path : Path} : path.isAbsolute = true ↔ path.start = [slash] := by
  unfold start
  by_cases habsolute : path.isAbsolute = true
  · simp [habsolute]
  · rw [if_neg habsolute]
    split <;> simp [habsolute, dot, slash]

/-- A path with an empty first piece is empty, or has a slash there. -/
theorem of_split_eq_nil_cons {bytes : List UInt8} {more : List (List UInt8)}
    (h : split bytes = [] :: more) :
    bytes = [] ∧ more = [] ∨ ∃ rest, bytes = slash :: rest ∧ more = split rest := by
  cases bytes with
  | nil => exact .inl ⟨rfl, (List.cons.inj h).2.symm⟩
  | cons b rest =>
      by_cases hb : b = slash
      · subst hb
        exact .inr ⟨rest, rfl, (List.cons.inj h).2.symm⟩
      · obtain ⟨first, others, hrest⟩ := List.exists_cons_of_ne_nil (split_ne_nil rest)
        rw [split_cons hb hrest] at h
        cases h

theorem exists_of_split_eq_cons {b : UInt8} {bytes first : List UInt8}
    {more : List (List UInt8)} (h : split bytes = (b :: first) :: more) :
    ∃ rest, bytes = b :: rest ∧ split rest = first :: more := by
  cases bytes with
  | nil => cases h
  | cons other rest =>
      by_cases hslash : other = slash
      · rw [split, if_pos hslash] at h
        cases h
      · obtain ⟨_, _, hrest⟩ := List.exists_cons_of_ne_nil (split_ne_nil rest)
        rw [split_cons hslash hrest] at h
        cases h
        exact ⟨rest, rfl, hrest⟩

/-- A path starts with what pieces can follow, and moves as these pieces do. -/
theorem Starts.components {start bytes : List UInt8} (h : Starts start (split bytes)) :
    Path.components ⟨start ++ bytes⟩ = (start, moving (split bytes)) := by
  generalize hpieces : split bytes = pieces at h
  cases h with
  | root =>
      have hmoves : moves ⟨slash :: bytes⟩ = moving ([] :: split bytes) := by
        rw [moves_eq, split, if_pos rfl]
      rw [Path.components, List.singleton_append, start_root, hmoves, hpieces,
        moving_nil_cons]
  | here more =>
      have hsplit := split_cons (by decide : dot ≠ slash) hpieces
      have hstart : Path.start ⟨dot :: bytes⟩ = [dot] := by
        rw [start_relative (by rfl) hsplit, if_pos rfl]
      rw [Path.components, List.singleton_append, hstart, moves_eq, hsplit,
        moving_dot_cons, moving_nil_cons]
  | piece hdot hempty =>
      have habsolute : isAbsolute ⟨bytes⟩ = false := by
        apply Bool.eq_false_iff.2
        intro h
        obtain ⟨rest, rfl : bytes = slash :: rest⟩ := exists_eq_cons_slash h
        obtain ⟨hfirst, hmore⟩ := List.cons.inj hpieces
        exact split_ne_nil rest (hmore.trans (hempty hfirst.symm))
      rw [List.nil_append, Path.components, start_relative habsolute hpieces, if_neg hdot,
        moves_eq, hpieces]

/-- Every path is made of what it starts with and the bytes after it. -/
theorem starts (path : Path) :
    path.bytes = path.start ++ path.body ∧ Starts path.start (split path.body) := by
  obtain ⟨bytes⟩ := path
  cases habsolute : isAbsolute ⟨bytes⟩ with
  | true =>
      obtain ⟨rest, rfl : bytes = slash :: rest⟩ := exists_eq_cons_slash habsolute
      rw [body, start_root]
      exact ⟨rfl, .root _⟩
  | false =>
      obtain ⟨first, more, hsplit⟩ := List.exists_cons_of_ne_nil (split_ne_nil bytes)
      rw [body, start_relative habsolute hsplit]
      by_cases hdot : first = [dot]
      · rw [if_pos hdot]
        rw [hdot] at hsplit
        obtain ⟨rest, rfl, hrest⟩ := exists_of_split_eq_cons hsplit
        refine ⟨rfl, ?_⟩
        rw [List.length_singleton, List.drop_one, List.tail_cons, hrest]
        exact .here more
      · rw [if_neg hdot]
        refine ⟨rfl, ?_⟩
        rw [List.length_nil, List.drop_zero, hsplit]
        refine .piece hdot ?_
        rintro rfl
        rcases of_split_eq_nil_cons hsplit with ⟨_, hmore⟩ | ⟨rest, rfl, _⟩
        · exact hmore
        · cases habsolute

theorem moves_eq_moving_body (path : Path) : path.moves = moving (split path.body) := by
  obtain ⟨hbytes, hstarts⟩ := starts path
  obtain ⟨bytes⟩ := path
  have hcomponents := hstarts.components
  rw [← hbytes] at hcomponents
  exact congrArg Prod.snd hcomponents

/-- A beginning of the pieces of a path, with slashes between them, makes a path that starts
in the same way. -/
theorem components_intercalate (path : Path) {front : List (List UInt8)}
    (h : front <+: split path.body) :
    components ⟨path.start ++ [slash].intercalate front⟩ = (path.start, moving front) := by
  obtain ⟨_, hstarts⟩ := starts path
  by_cases hne : front = []
  · have hnil : Starts path.start (split []) := hstarts.nil
    rw [hne]
    exact hnil.components
  · have hsplit : split ([slash].intercalate front) = front :=
      Route.split_intercalate hne fun _ hpiece => slash_not_mem_of_mem_split (h.subset hpiece)
    rw [Starts.components (hsplit.symm ▸ hstarts.of_isPrefix hne h), hsplit]

/-- A path that moves has a parent, which leaves out the last of its moves. -/
theorem exists_parent? {path : Path} (h : path.moves ≠ []) :
    ∃ parent, path.parent? = some parent ∧
      parent.components = (path.start, path.moves.dropLast) := by
  have hne : trim (split path.body) ≠ [] := by
    intro hempty
    apply h
    rw [moves_eq_moving_body, ← moving_trim, hempty]
    rfl
  refine ⟨_, if_neg hne, ?_⟩
  have hlast := List.dropLast_concat_getLast hne
  have hfront : trim (trim (split path.body)).dropLast <+: split path.body :=
    (trim_isPrefix _).trans ((List.dropLast_prefix _).trans (trim_isPrefix _))
  rw [components_intercalate path hfront, moving_trim, moves_eq_moving_body,
    moving_of_trim_eq_concat hlast.symm, List.dropLast_concat]

/-! ## Parents of joined paths -/

theorem head?_split_append_slash (front back : List UInt8) :
    (split (front ++ slash :: back)).head? = (split front).head? := by
  rw [split_append_slash, List.head?_append_of_ne_nil _ (split_ne_nil front)]

/-- A path starts as the path starts that it was joined to. -/
theorem start_join_component {base : Path} (hne : base.bytes ≠ []) (component : Component) :
    (base.join component.path).start = base.start := by
  have hhead : (split (base.join component.path).bytes).head? = (split base.bytes).head? := by
    rw [bytes_join_component hne, lead]
    split
    next hslash =>
      obtain ⟨front, hfront⟩ := List.getLast?_eq_some_iff.1 hslash
      rw [hfront, List.append_assoc, List.singleton_append, head?_split_append_slash,
        head?_split_append_slash]
    · rw [List.append_assoc, List.singleton_append, head?_split_append_slash]
  rw [start, start, isAbsolute_join hne (isAbsolute_component component), hhead]

/-- What a name is joined to has the components of the parent. -/
theorem exists_parent?_join_component {base : Path} (hne : base.bytes ≠ [])
    (component : Component) :
    ∃ parent, (base.join component.path).parent? = some parent ∧
      parent.components = base.components := by
  have hmoves := moves_join_component hne component
  have hne' : (base.join component.path).moves ≠ [] := by simp [hmoves]
  obtain ⟨parent, hparent, hcomponents⟩ := exists_parent? hne'
  refine ⟨parent, hparent, ?_⟩
  rw [hcomponents, hmoves, List.dropLast_concat, start_join_component hne, components]

/-! ## Paths without repetition -/

/-- If paths come in blocks, each with components of its own, one path of each block is left. -/
theorem map_components_unique {α : Type} {blocks : List α} {paths : α → List Path}
    {key : α → List UInt8 × List Step} (hnodup : (blocks.map key).Nodup)
    (hkey : ∀ block ∈ blocks, ∀ path ∈ paths block, path.components = key block) :
    (unique (blocks.flatMap paths)).map components =
      (blocks.filter fun block => paths block ≠ []).map key := by
  induction blocks with
  | nil => rfl
  | cons block rest ih =>
      rw [List.map_cons, List.nodup_cons] at hnodup
      rw [List.forall_mem_cons] at hkey
      have hrest := ih hnodup.2 hkey.2
      cases hpaths : paths block with
      | nil => simpa [hpaths] using hrest
      | cons first more =>
          rw [hpaths, List.forall_mem_cons] at hkey
          obtain ⟨⟨hfirst, hmore⟩, hothers⟩ := hkey
          have hdrop : (more ++ rest.flatMap paths).filter (fun path =>
              decide (decide (path.components = first.components) = false)) =
              rest.flatMap paths := by
            rw [List.filter_append, List.filter_eq_nil_iff.2, List.nil_append,
              List.filter_eq_self]
            · intro path hpath
              obtain ⟨other, hother, hmem⟩ := List.mem_flatMap.1 hpath
              rw [hothers other hother path hmem, hfirst]
              have hne : key other ≠ key block := by
                intro heq
                exact hnodup.1 (heq ▸ List.mem_map_of_mem hother)
              simp [hne]
            · intro path hpath
              simp [hmore path hpath, hfirst]
          rw [List.flatMap_cons, hpaths, List.cons_append, unique, List.eraseDupsBy_cons, hdrop,
            List.map_cons, ← unique, hrest, List.filter_cons_of_pos (by simp [hpaths]), hfirst,
            List.map_cons]

end LinkTags.Path
