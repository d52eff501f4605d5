/-!
# Paths

A path is a string of bytes read at its slashes. Each piece between two slashes
is a step: the empty piece and `.` stay, `..` goes up, and every other piece goes
down by a component. The two readings of a path, the lexical one and the one that
walks a file system, both start from these steps.
-/

namespace LinkTags

/-- The byte `/`, which separates the pieces of a path. -/
def slash : UInt8 := 0x2f

/-- The byte `.`, of which the pieces `.` and `..` are made. -/
def dot : UInt8 := 0x2e

/-- A name that a path can spell as one piece of its own. -/
def Proper (bytes : List UInt8) : Prop :=
  bytes ≠ [] ∧ slash ∉ bytes ∧ bytes ≠ [dot] ∧ bytes ≠ [dot, dot]

instance (bytes : List UInt8) : Decidable (Proper bytes) := by
  unfold Proper
  infer_instance

/-- A piece of a path that names something: not empty, without a slash, and
neither `.` nor `..`. -/
structure Component where
  bytes : List UInt8
  proper : Proper bytes
  deriving DecidableEq

/-- What one piece of a path asks for. -/
inductive Step where
  | stay
  | up
  | down (component : Component)
  deriving DecidableEq

/-- The step that a piece between slashes stands for. -/
def Step.ofPiece (piece : List UInt8) : Step :=
  if h : Proper piece then .down ⟨piece, h⟩
  else if piece = [dot, dot] then .up
  else .stay

/-- The bytes of a step as a path spells it. -/
def Step.piece : Step → List UInt8
  | .stay => [dot]
  | .up => [dot, dot]
  | .down component => component.bytes

@[simp] theorem Step.ofPiece_piece (step : Step) : Step.ofPiece step.piece = step := by
  cases step with
  | stay => rfl
  | up => rfl
  | down component => simp [Step.ofPiece, Step.piece, component.proper]

/-- A path, as the bytes it is spelled with. -/
structure Path where
  bytes : List UInt8
  deriving DecidableEq

namespace Path

/-- The pieces between slashes; there is always one more of them than slashes. -/
def split : List UInt8 → List (List UInt8)
  | [] => [[]]
  | b :: rest =>
      if b = slash then [] :: split rest
      else
        match split rest with
        | piece :: pieces => (b :: piece) :: pieces
        | [] => [[b]]

theorem split_ne_nil (bytes : List UInt8) : split bytes ≠ [] := by
  induction bytes with
  | nil => simp [split]
  | cons b rest ih =>
      unfold split
      split
      · simp
      · split <;> simp

/-- A slash ends the pieces before it and starts the pieces after it. -/
theorem split_append_slash (front back : List UInt8) :
    split (front ++ slash :: back) = split front ++ split back := by
  induction front with
  | nil => simp [split]
  | cons b rest ih =>
      by_cases hb : b = slash
      · simp [split, hb, ih]
      · obtain ⟨piece, pieces, h⟩ := List.exists_cons_of_ne_nil (split_ne_nil rest)
        simp [split, hb, ih, h]

/-- Bytes without a slash are a single piece. -/
theorem split_of_not_mem {bytes : List UInt8} (h : slash ∉ bytes) : split bytes = [bytes] := by
  induction bytes with
  | nil => rfl
  | cons b rest ih =>
      have hb : b ≠ slash := fun e => h (by simp [e])
      have hrest : slash ∉ rest := fun m => h (by simp [m])
      simp [split, hb, ih hrest]

/-- A path whose first byte is a slash starts at the root. -/
def isAbsolute (path : Path) : Bool :=
  path.bytes.head? = some slash

/-- The steps of a path, in order. -/
def steps (path : Path) : List Step :=
  (split path.bytes).map Step.ofPiece

/-- The path `relative` taken from `base`. An absolute path replaces the base; any
other is appended, after a slash if the base does not end in one. Joining the
empty path leaves that slash at the end. -/
def join (base relative : Path) : Path :=
  if relative.isAbsolute then relative
  else if base.bytes = [] ∨ base.bytes.getLast? = some slash then
    ⟨base.bytes ++ relative.bytes⟩
  else ⟨base.bytes ++ slash :: relative.bytes⟩

/-- The steps that move, without those that stay where they are. -/
def moves (path : Path) : List Step :=
  path.steps.filter (· ≠ .stay)

/-- The name that a path ends in, if it ends in one: trailing slashes and `.` are
passed over, and a path that ends in `..` or names the root has none. -/
def fileName? (path : Path) : Option Component :=
  match path.moves.getLast? with
  | some (.down component) => some component
  | _ => none

end Path

end LinkTags
