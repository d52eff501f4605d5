import LinkTags.FileSystem.Tree

/-!
# Joined paths

Joining names to a path one after the other gives the path to a directory below it
(`Path.through`). It has the steps of the path and one step down for each name, and is
spelled as the path, a slash if there is none, and the names with slashes between them.
-/

namespace LinkTags.Path

/-- The bytes of a path up to where a joined path begins. -/
def lead (path : Path) : List UInt8 :=
  if path.bytes.getLast? = some slash then path.bytes else path.bytes ++ [slash]

theorem length_le_lead (path : Path) : path.bytes.length ≤ path.lead.length := by
  unfold lead
  split <;> simp

theorem length_lead_le (path : Path) : path.lead.length ≤ path.bytes.length + 1 := by
  unfold lead
  split <;> simp

theorem mem_lead {path : Path} {b : UInt8} (h : b ∈ path.bytes) : b ∈ path.lead := by
  unfold lead
  split <;> simp [h]

/-- A relative path begins with no slash. -/
theorem dropWhile_slash_of_relative {path : Path} (h : path.isAbsolute = false) :
    path.bytes.dropWhile (fun b => decide (b = slash)) = path.bytes := by
  obtain ⟨bytes⟩ := path
  cases bytes with
  | nil => rfl
  | cons first rest =>
      apply List.dropWhile_cons_of_neg
      simpa [isAbsolute] using h

/-- Joining a relative path puts its bytes after those that lead to it. -/
theorem bytes_join {base relative : Path} (hne : base.bytes ≠ [])
    (hrelative : relative.isAbsolute = false) :
    (base.join relative).bytes = base.lead ++ relative.bytes := by
  unfold join lead
  rw [hrelative, if_neg (by simp)]
  by_cases hlast : base.bytes.getLast? = some slash
  · rw [if_pos (.inr hlast), if_pos hlast]
  · rw [if_neg (by simp [hne, hlast]), if_neg hlast]
    simp

theorem isAbsolute_join {base relative : Path} (hne : base.bytes ≠ [])
    (hrelative : relative.isAbsolute = false) :
    (base.join relative).isAbsolute = base.isAbsolute := by
  obtain ⟨first, rest, hbytes⟩ := List.exists_cons_of_ne_nil hne
  unfold isAbsolute
  rw [bytes_join hne hrelative, lead]
  split <;> simp [hbytes]

theorem isAbsolute_component (component : Component) : component.path.isAbsolute = false := by
  obtain ⟨first, rest, hbytes⟩ := List.exists_cons_of_ne_nil component.proper.1
  have hfirst : first ≠ slash := fun e => component.proper.2.1 (by simp [hbytes, e])
  simp [isAbsolute, Component.path, hbytes, hfirst]

/-- Joining a name to a path puts its bytes at the end. -/
theorem bytes_join_component {base : Path} (hne : base.bytes ≠ []) (component : Component) :
    (base.join component.path).bytes = base.lead ++ component.bytes :=
  bytes_join hne (isAbsolute_component component)

theorem bytes_join_component_ne_nil {base : Path} (hne : base.bytes ≠ [])
    (component : Component) : (base.join component.path).bytes ≠ [] := by
  rw [bytes_join_component hne]
  simp [component.proper.1]

theorem not_mem_bytes_join {base relative : Path} {b : UInt8} (hne : base.bytes ≠ [])
    (hstart : relative.isAbsolute = false) (hbase : b ∉ base.bytes) (hslash : b ≠ slash)
    (hrelative : b ∉ relative.bytes) : b ∉ (base.join relative).bytes := by
  rw [bytes_join hne hstart, lead]
  split <;> simp [hbase, hslash, hrelative]

/-- A joined path ends in the name, so a slash has to follow. -/
theorem lead_join_component {base : Path} (hne : base.bytes ≠ []) (component : Component) :
    (base.join component.path).lead = base.lead ++ component.bytes ++ [slash] := by
  have hlast : (base.lead ++ component.bytes).getLast? ≠ some slash := by
    obtain ⟨last, hlast⟩ := Option.ne_none_iff_exists'.1
      (mt List.getLast?_eq_none_iff.1 component.proper.1)
    rw [List.getLast?_append, hlast, Option.some_or]
    rintro ⟨⟩
    exact component.proper.2.1 (List.mem_of_getLast? hlast)
  unfold lead at hlast ⊢
  rw [bytes_join_component hne, lead, if_neg hlast]

/-- A joined path has no fewer bytes than its parts. -/
theorem isTooLong_join_of_lt {base relative : Path} (hne : base.bytes ≠ [])
    (hrelative : relative.isAbsolute = false)
    (h : pathLimit < base.bytes.length + relative.bytes.length) :
    (base.join relative).isTooLong = true := by
  have hlead := length_le_lead base
  rw [isTooLong, decide_eq_true_eq, bytes_join hne hrelative, List.length_append]
  omega

/-- A path that is too long is too long with a name joined to it. -/
theorem isTooLong_join {base : Path} (h : base.isTooLong = true) (component : Component) :
    (base.join component.path).isTooLong = true := by
  rw [isTooLong, decide_eq_true_eq] at h
  have hne : base.bytes ≠ [] := List.ne_nil_of_length_pos (by omega)
  exact isTooLong_join_of_lt hne (isAbsolute_component component) (by omega)

/-- The path that is empty leaves what is joined to it as it is. -/
theorem empty_join {base : Path} (h : base.bytes = []) (relative : Path) :
    base.join relative = relative := by
  unfold join
  split
  · rfl
  · rw [if_pos (.inl h), h]
    rfl

theorem isAbsolute_of_empty {path : Path} (h : path.bytes = []) : path.isAbsolute = false := by
  simp [isAbsolute, h]

/-- A path starts where the path that it was joined to starts. -/
theorem isAbsolute_join_relative (base : Path) {relative : Path}
    (hrelative : relative.isAbsolute = false) :
    (base.join relative).isAbsolute = base.isAbsolute := by
  by_cases hempty : base.bytes = []
  · rw [empty_join hempty, hrelative, isAbsolute_of_empty hempty]
  · exact isAbsolute_join hempty hrelative

theorem steps_of_empty {path : Path} (h : path.bytes = []) : path.steps = [.stay] := by
  have hempty : (split []).map Step.ofPiece = [.stay] := by decide
  rw [steps, h, hempty]

theorem steps_component (component : Component) :
    component.path.steps = [.down component] := by
  rw [steps, Component.path, split_of_not_mem component.proper.2.1]
  exact congrArg ([·]) (Step.ofPiece_piece (.down component))

/-- The steps of a path joined with a relative one are those of the path, apart from a last
one that stays, and those of the relative path. -/
theorem steps_join {base relative : Path} (hne : base.bytes ≠ [])
    (hrelative : relative.isAbsolute = false) :
    ∃ front, (base.steps = front ∨ base.steps = front ++ [.stay]) ∧
      (base.join relative).steps = front ++ relative.steps := by
  unfold steps
  rw [bytes_join hne hrelative, lead]
  by_cases hlast : base.bytes.getLast? = some slash
  · obtain ⟨front, hfront⟩ := List.getLast?_eq_some_iff.1 hlast
    have hempty : (split []).map Step.ofPiece = [.stay] := by decide
    refine ⟨(split front).map Step.ofPiece, .inr ?_, ?_⟩
    · rw [hfront, split_append_slash, List.map_append, hempty]
    · rw [if_pos hlast, hfront, List.append_assoc, List.singleton_append, split_append_slash,
        List.map_append]
  · refine ⟨(split base.bytes).map Step.ofPiece, .inl rfl, ?_⟩
    rw [if_neg hlast, List.append_assoc, List.singleton_append, split_append_slash,
      List.map_append]

/-- The steps of a path joined with a name are those of the path, apart from a last one
that stays, and the step down. -/
theorem steps_join_component {base : Path} (hne : base.bytes ≠ []) (component : Component) :
    ∃ front, (base.steps = front ∨ base.steps = front ++ [.stay]) ∧
      (base.join component.path).steps = front ++ [.down component] := by
  rw [← steps_component]
  exact steps_join hne (isAbsolute_component component)

theorem split_slashes (count : Nat) :
    split (List.replicate count slash) = List.replicate (count + 1) [] := by
  induction count with
  | zero => rfl
  | succ count ih => simp [List.replicate_succ (n := count), split, ih, List.replicate_succ]

theorem steps_slashes (count : Nat) :
    steps ⟨List.replicate count slash⟩ = List.replicate (count + 1) .stay := by
  have hempty : Step.ofPiece [] = .stay := by decide
  rw [steps, split_slashes, List.map_replicate, hempty]

theorem isAbsolute_slashes {count : Nat} (h : 0 < count) :
    isAbsolute ⟨List.replicate count slash⟩ = true := by
  obtain ⟨less, rfl⟩ := Nat.exists_eq_add_one.2 h
  simp [isAbsolute, List.replicate_succ]

theorem ofString_slashes (count : Nat) :
    ofString (String.ofList (List.replicate count '/')) = ⟨List.replicate count slash⟩ := by
  have hencode : (List.replicate count '/').flatMap String.utf8EncodeChar =
      List.replicate count slash := by
    induction count with
    | zero => rfl
    | succ count ih =>
        rw [List.replicate_succ, List.flatMap_cons, ih]
        rfl
  rw [ofString, String.toByteArray_ofList, List.utf8Encode, hencode,
    List.toList_data_toByteArray]

/-! ## Ways down -/

/-- The path through names, the outermost first, from a path on. -/
def through (base : Path) (names : List Name) : Path :=
  names.foldl (fun path name => path.join name.path) base

@[simp] theorem through_nil (base : Path) : base.through [] = base := rfl

theorem through_cons (base : Path) (name : Name) (rest : List Name) :
    base.through (name :: rest) = (base.join name.path).through rest := rfl

theorem through_concat (base : Path) (names : List Name) (name : Name) :
    base.through (names ++ [name]) = (base.through names).join name.path := by
  rw [through, through, List.foldl_append]
  rfl

/-- The names follow the path in their order, with a slash between each two. -/
theorem bytes_through_cons {base : Path} (hne : base.bytes ≠ []) (name : Name)
    (rest : List Name) :
    (base.through (name :: rest)).bytes =
      base.lead ++ [slash].intercalate ((name :: rest).map fun other => other.bytes) := by
  induction rest generalizing base name with
  | nil => simpa [through] using bytes_join_component hne name.toComponent
  | cons next others ih =>
      rw [through_cons, ih (bytes_join_component_ne_nil hne _), lead_join_component hne]
      simp [List.intercalate_cons_cons]

/-- A path that goes further is no shorter. -/
theorem length_le_through {base : Path} (hne : base.bytes ≠ []) (names : List Name) :
    base.bytes.length ≤ (base.through names).bytes.length := by
  cases names with
  | nil => exact Nat.le_refl _
  | cons name rest =>
      rw [bytes_through_cons hne, List.length_append]
      have hlead := length_le_lead base
      omega

/-- Every name makes a path longer. -/
theorem length_add_length_le_through {base : Path} (hne : base.bytes ≠ []) (names : List Name) :
    base.bytes.length + names.length ≤ (base.through names).bytes.length := by
  induction names generalizing base with
  | nil => exact Nat.le_refl _
  | cons name rest ih =>
      have hrest := ih (bytes_join_component_ne_nil hne name.toComponent)
      have hname := List.length_pos_iff.2 name.proper.1
      have hlead := length_le_lead base
      rw [bytes_join_component hne, List.length_append] at hrest
      rw [through_cons, List.length_cons]
      omega

theorem bytes_through_ne_nil {base : Path} (hne : base.bytes ≠ []) (names : List Name) :
    (base.through names).bytes ≠ [] :=
  List.ne_nil_of_length_pos
    (Nat.lt_of_lt_of_le (List.length_pos_iff.2 hne) (length_le_through hne names))

theorem not_mem_bytes_through {base : Path} {b : UInt8} (hne : base.bytes ≠ [])
    (hbase : b ∉ base.bytes) (hslash : b ≠ slash) {names : List Name}
    (hnames : ∀ name ∈ names, b ∉ name.bytes) : b ∉ (base.through names).bytes := by
  induction names generalizing base with
  | nil => exact hbase
  | cons name rest ih =>
      rw [List.forall_mem_cons] at hnames
      have hnext := bytes_join_component_ne_nil hne name.toComponent
      have hjoined : b ∉ (base.join name.path).bytes :=
        not_mem_bytes_join hne (isAbsolute_component _) hbase hslash hnames.1
      exact ih hnext hjoined hnames.2

/-! ## Names that are joined show in the path -/

/-- A joined path moves as the one and then as the other. -/
theorem moves_join {base relative : Path} (hne : base.bytes ≠ [])
    (hrelative : relative.isAbsolute = false) :
    (base.join relative).moves = base.moves ++ relative.moves := by
  obtain ⟨front, hfront, hjoin⟩ := steps_join hne hrelative
  rw [moves, moves, moves, hjoin]
  rcases hfront with hsteps | hsteps <;> simp [hsteps]

theorem moves_join_component {base : Path} (hne : base.bytes ≠ []) (component : Component) :
    (base.join component.path).moves = base.moves ++ [.down component] := by
  rw [moves_join hne (isAbsolute_component component), moves, moves, steps_component]
  simp

theorem moves_through {base : Path} (hne : base.bytes ≠ []) (names : List Name) :
    (base.through names).moves = base.moves ++ names.map fun name => .down name.toComponent := by
  induction names generalizing base with
  | nil => simp
  | cons name rest ih =>
      rw [through_cons, ih (bytes_join_component_ne_nil hne _), moves_join_component hne]
      simp

/-- Different ways down are different moves. -/
theorem moves_through_inj {base : Path} (hne : base.bytes ≠ []) {names others : List Name}
    (h : (base.through names).moves = (base.through others).moves) : names = others := by
  rw [moves_through hne, moves_through hne, List.append_cancel_left_eq] at h
  refine (List.map_inj_right ?_).1 h
  intro a b hstep
  exact Name.ext_bytes (congrArg Component.bytes (Step.down.inj hstep))

/-- Different ways down give different paths. -/
theorem through_inj {base : Path} (hne : base.bytes ≠ []) {names others : List Name}
    (h : base.through names = base.through others) : names = others :=
  moves_through_inj hne (congrArg moves h)

end LinkTags.Path
