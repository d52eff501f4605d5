import LinkTags.Library
import LinkTags.Proofs.Search.Meaning
import LinkTags.Proofs.Tag.RoundTrip
import Mathlib.Data.List.TakeWhile

/-!
# Names that are resolved again

What a name was resolved to is text, and so a name in turn. A tag that is resolved to a tag
stays what it is, and the tag of a path stands for the route of the path. A path stays what it
is too, unless it is taken for a tag: this happens if it was made from a tag and the root
itself begins with two slashes. The root then comes before the path a second time, and it
shows, unless the root is all slashes (`resolveAsPath_again_iff`). So resolving names is
idempotent in libraries whose root is spelled in any other way (`resolves_again`).
-/

namespace LinkTags

namespace Path

/-- The path is spelled like a tag. -/
def LooksLikeTag (path : Path) : Prop :=
  [slash, slash] <+: path.bytes

instance (path : Path) : Decidable path.LooksLikeTag :=
  inferInstanceAs (Decidable (_ <+: _))

/-- The path is a row of slashes. -/
def IsSlashes (path : Path) : Prop :=
  ∀ b ∈ path.bytes, b = slash

instance (path : Path) : Decidable path.IsSlashes :=
  inferInstanceAs (Decidable (∀ b ∈ path.bytes, b = slash))

theorem prefix_lead (path : Path) : path.bytes <+: path.lead := by
  unfold lead
  split
  · exact List.prefix_rfl
  · exact List.prefix_append _ _

/-- The bytes before a joined path are text if the path is. -/
theorem exists_lead_eq {path : Path} (h : path.toString? ≠ none) :
    ∃ text, path.lead = (ofString text).bytes := by
  obtain ⟨text, htext⟩ := Option.ne_none_iff_exists'.1 h
  have hbytes := congrArg Path.bytes (ofString_of_toString? htext)
  unfold lead
  split
  · exact ⟨text, hbytes.symm⟩
  · refine ⟨text ++ "/", ?_⟩
    rw [← hbytes]
    simp only [ofString, String.toByteArray_append, ByteArray.data_append, Array.toList_append]
    rfl

/-- A row of slashes leads to what is joined to it as it is. -/
theorem IsSlashes.lead_eq {path : Path} (h : path.IsSlashes) (hne : path.bytes ≠ []) :
    path.lead = path.bytes := by
  have hlast := h _ (List.getLast_mem hne)
  rw [lead, if_pos (by rw [List.getLast?_eq_some_getLast hne, hlast])]

theorem moves_of_empty {path : Path} (h : path.bytes = []) : path.moves = [] := by
  rw [moves, steps_of_empty h]
  rfl

/-- The slashes that a path begins with do not move. -/
theorem moves_dropWhile_slash (bytes : List UInt8) :
    moves ⟨bytes.dropWhile (· = slash)⟩ = moves ⟨bytes⟩ := by
  induction bytes with
  | nil => rfl
  | cons b rest ih =>
      by_cases hb : b = slash
      · have hstay : Step.ofPiece [] = .stay := by decide
        rw [List.dropWhile_cons_of_pos (by simpa using hb), ih]
        simp [moves, steps, split, hb, hstay]
      · rw [List.dropWhile_cons_of_neg (by simpa using hb)]

/-- With a slash before it at most, a relative path is not spelled like a tag. -/
theorem not_looksLikeTag_append {path : Path} (hrelative : path.isAbsolute = false)
    (front : List UInt8) (hfront : front.length ≤ 1) :
    ¬LooksLikeTag ⟨front ++ path.bytes⟩ := by
  have hstart (others : List UInt8) : ¬slash :: others <+: path.bytes := by
    rintro ⟨back, hback⟩
    simp [isAbsolute, ← hback] at hrelative
  unfold LooksLikeTag
  cases front with
  | nil => exact hstart [slash]
  | cons b rest =>
      obtain rfl : rest = [] := List.length_eq_zero_iff.1 (by simpa using hfront)
      intro h
      exact hstart [] (List.cons_prefix_cons.1 h).2

end Path

namespace Tag

variable {root : Path} {tag : Tag}

/-- A tag is spelled with slashes and its way. -/
theorem exists_bytes_eq (tag : Tag) :
    ∃ count, (Path.ofString tag.text).bytes = List.replicate count slash ++ tag.way.bytes := by
  refine ⟨((Path.ofString tag.text).bytes.takeWhile fun b => decide (b = slash)).length, ?_⟩
  have hall : ∀ b ∈ (Path.ofString tag.text).bytes.takeWhile fun b => decide (b = slash),
      b = slash := by
    intro b hb
    simpa using List.mem_takeWhile_imp hb
  rw [← List.eq_replicate_iff.2 ⟨rfl, hall⟩]
  exact List.takeWhile_append_dropWhile.symm

/-- A tag moves as its way does. -/
theorem moves_way (tag : Tag) : tag.way.moves = (Path.ofString tag.text).moves :=
  Path.moves_dropWhile_slash _

/-- The way of a tag is text. -/
theorem toString?_way (tag : Tag) : tag.way.toString? ≠ none := by
  obtain ⟨count, hbytes⟩ := tag.exists_bytes_eq
  intro hnone
  have hslashes := congrArg Path.bytes (Path.ofString_slashes count)
  rw [← Path.toString?_append_eq_none_iff (String.ofList (List.replicate count '/')), hslashes,
    ← hbytes] at hnone
  cases (Path.toString?_ofString tag.text).symm.trans hnone

/-- A tag stands for the root, followed by its way if it has one. -/
theorem bytes_toPath (hne : root.bytes ≠ []) (tag : Tag) :
    (tag.toPath root).bytes =
      if tag.way.bytes = [] then root.bytes else root.lead ++ tag.way.bytes := by
  unfold toPath
  split
  · rfl
  · exact Path.bytes_join hne tag.isAbsolute_way

/-- From a row of slashes the way of a tag follows directly. -/
theorem bytes_toPath_of_isSlashes (hne : root.bytes ≠ []) (h : root.IsSlashes) (tag : Tag) :
    (tag.toPath root).bytes = root.bytes ++ tag.way.bytes := by
  rw [bytes_toPath hne, h.lead_eq hne]
  split
  next hempty => rw [hempty, List.append_nil]
  next => rfl

theorem toPath_of_empty (h : root.bytes = []) (tag : Tag) : tag.toPath root = tag.way := by
  unfold toPath
  split
  next hway => exact congrArg Path.mk (h.trans hway.symm)
  next => exact Path.empty_join h tag.way

theorem toPath_of_way_empty (h : tag.way.bytes = []) : tag.toPath root = root := if_pos h

theorem prefix_toPath (hne : root.bytes ≠ []) (tag : Tag) :
    root.bytes <+: (tag.toPath root).bytes := by
  rw [bytes_toPath hne]
  split
  · exact List.prefix_rfl
  · exact root.prefix_lead.trans (List.prefix_append _ _)

/-- A tag moves from the root as it is spelled. -/
theorem moves_toPath (hne : root.bytes ≠ []) (tag : Tag) :
    (tag.toPath root).moves = root.moves ++ (Path.ofString tag.text).moves := by
  rw [← moves_way, toPath]
  split
  next hway => rw [Path.moves_of_empty hway, List.append_nil]
  next => exact Path.moves_join hne tag.isAbsolute_way

/-- The path of a tag is text if the root is. -/
theorem toString?_toPath (hroot : root.toString? ≠ none) (tag : Tag) :
    (tag.toPath root).toString? ≠ none := by
  by_cases hempty : root.bytes = []
  · rw [toPath_of_empty hempty]
    exact tag.toString?_way
  · by_cases hway : tag.way.bytes = []
    · rwa [toPath_of_way_empty hway]
    · obtain ⟨text, hlead⟩ := Path.exists_lead_eq hroot
      have hbytes : (tag.toPath root).bytes = (Path.ofString text).bytes ++ tag.way.bytes := by
        rw [bytes_toPath hempty, if_neg hway, hlead]
      intro hnone
      have hjoined : Path.toString? ⟨(tag.toPath root).bytes⟩ = none := hnone
      rw [hbytes, Path.toString?_append_eq_none_iff] at hjoined
      exact tag.toString?_way hjoined

/-- The path of a tag is spelled like a tag exactly if the root is. -/
theorem looksLikeTag_toPath_iff : (tag.toPath root).LooksLikeTag ↔ root.LooksLikeTag := by
  have hway := tag.isAbsolute_way
  obtain ⟨bytes⟩ := root
  cases bytes with
  | nil =>
      have hpath : ¬(tag.toPath ⟨[]⟩).LooksLikeTag := by
        rw [toPath_of_empty rfl]
        exact Path.not_looksLikeTag_append hway [] (Nat.zero_le 1)
      exact iff_of_false hpath (by decide)
  | cons b rest =>
      obtain ⟨back, hback⟩ : b :: rest <+: (tag.toPath ⟨b :: rest⟩).bytes :=
        prefix_toPath (List.cons_ne_nil _ _) tag
      cases rest with
      | nil =>
          have hroot : ¬Path.LooksLikeTag ⟨[b]⟩ := fun h => by simpa using h.length_le
          refine iff_of_false ?_ hroot
          by_cases hb : b = slash
          · have hslashes : Path.IsSlashes ⟨[b]⟩ := by simpa [Path.IsSlashes] using hb
            rw [Path.LooksLikeTag, bytes_toPath_of_isSlashes (List.cons_ne_nil _ _) hslashes]
            exact Path.not_looksLikeTag_append hway [b] (Nat.le_refl 1)
          · intro h
            rw [Path.LooksLikeTag, ← hback] at h
            exact hb (List.cons_prefix_cons.1 h).1.symm
      | cons c others =>
          unfold Path.LooksLikeTag
          rw [← hback]
          simp [List.cons_prefix_cons]

/-- The path of a tag that is resolved again is the same exactly if the root is a row of
slashes: otherwise the root is put before it a second time. -/
theorem toPath_again_iff {again : Tag} (hne : root.bytes ≠ [])
    (hagain : Path.ofString again.text = tag.toPath root) :
    again.toPath root = tag.toPath root ↔ root.IsSlashes := by
  have hway : again.way.bytes =
      (tag.toPath root).bytes.dropWhile fun b => decide (b = slash) := by rw [way, hagain]
  constructor
  · intro hsame
    by_contra hslashes
    obtain ⟨back, hback⟩ := prefix_toPath hne tag
    have hrest : root.bytes.dropWhile (fun b => decide (b = slash)) ≠ [] := by
      intro hnil
      apply hslashes
      intro b hb
      exact of_decide_eq_true (List.dropWhile_eq_nil_iff.1 hnil b hb)
    have hpos := List.length_pos_iff.2 hrest
    rw [← hback, List.dropWhile_append, if_neg (by simpa using hrest)] at hway
    have hwayne : again.way.bytes ≠ [] := by
      rw [hway]
      exact List.append_ne_nil_of_left_ne_nil hrest _
    have hlength := congrArg (fun path => path.bytes.length) hsame
    have hlead := root.length_le_lead
    rw [← hback, bytes_toPath hne, if_neg hwayne, hway] at hlength
    simp only [List.length_append] at hlength
    omega
  · intro hslashes
    have hsame : again.way.bytes = tag.way.bytes := by
      calc again.way.bytes
        _ = (root.bytes ++ tag.way.bytes).dropWhile fun b => decide (b = slash) := by
          rw [hway, bytes_toPath_of_isSlashes hne hslashes]
        _ = tag.way.bytes.dropWhile fun b => decide (b = slash) :=
          List.dropWhile_append_of_pos fun b hb => decide_eq_true (hslashes b hb)
        _ = tag.way.bytes := Path.dropWhile_slash_of_relative tag.isAbsolute_way
    rw [toPath, toPath, show again.way = tag.way from congrArg Path.mk hsame]

end Tag

/-! ## Resolving names -/

section Resolving

variable {context : Context} {root : Path} {name : String}

theorem resolveAsPath_of_isTag (h : IsTag name) :
    resolveAsPath root name = Tag.toPath root ⟨name, h⟩ := dif_pos h

theorem resolveAsPath_of_not_isTag (h : ¬IsTag name) :
    resolveAsPath root name = Path.ofString name := dif_neg h

/-- What a name is resolved to is text. -/
theorem toString?_resolveAsPath (hroot : root.toString? ≠ none) (name : String) :
    (resolveAsPath root name).toString? ≠ none := by
  by_cases hname : IsTag name
  · rw [resolveAsPath_of_isTag hname]
    exact Tag.toString?_toPath hroot _
  · rw [resolveAsPath_of_not_isTag hname, Path.toString?_ofString]
    exact Option.some_ne_none name

/-- Only a path that is made from a tag, with a root that is itself spelled like a tag, is
taken for a tag. -/
theorem isTag_again_iff {again : String} (h : Path.ofString again = resolveAsPath root name) :
    IsTag again ↔ IsTag name ∧ root.LooksLikeTag := by
  by_cases hname : IsTag name
  · rw [resolveAsPath_of_isTag hname] at h
    have hlooks : IsTag again ↔ root.LooksLikeTag := by
      rw [IsTag, h]
      exact Tag.looksLikeTag_toPath_iff
    rw [hlooks, and_iff_right hname]
  · rw [resolveAsPath_of_not_isTag hname] at h
    rw [Path.ofString_inj h]
    exact (and_iff_left_of_imp fun himpossible => absurd himpossible hname).symm

/-- A path that was resolved is resolved to itself, unless it is taken for a tag and the root is
more than a row of slashes. -/
theorem resolveAsPath_again_iff {again : String}
    (h : Path.ofString again = resolveAsPath root name) :
    resolveAsPath root again = resolveAsPath root name ↔
      (IsTag name → root.LooksLikeTag → root.IsSlashes) := by
  by_cases hagain : IsTag again
  · obtain ⟨hname, hroot⟩ := (isTag_again_iff h).1 hagain
    have hne : root.bytes ≠ [] := hroot.ne_nil (List.cons_ne_nil _ _)
    rw [resolveAsPath_of_isTag hname] at h ⊢
    rw [resolveAsPath_of_isTag hagain, Tag.toPath_again_iff hne h]
    exact ⟨fun hslashes _ _ => hslashes, fun hslashes => hslashes hname hroot⟩
  · rw [resolveAsPath_of_not_isTag hagain, h]
    refine iff_of_true rfl ?_
    intro hname hroot
    exact absurd ((isTag_again_iff h).2 ⟨hname, hroot⟩) hagain

/-- A path that is taken for a tag moves as the root does before it moves as it did. -/
theorem moves_resolveAsPath_again {again : String}
    (h : Path.ofString again = resolveAsPath root name) (hname : IsTag name)
    (hroot : root.LooksLikeTag) :
    (resolveAsPath root again).moves = root.moves ++ (resolveAsPath root name).moves := by
  have hagain := (isTag_again_iff h).2 ⟨hname, hroot⟩
  have hne : root.bytes ≠ [] := hroot.ne_nil (List.cons_ne_nil _ _)
  rw [resolveAsPath_of_isTag hagain, Tag.moves_toPath hne, ← h]

theorem resolveAsTag_text (tag : Tag) : resolveAsTag context root tag.text = .ok tag :=
  dif_pos tag.marked

/-- The tag that a name stands for and the name itself stand for paths with the same route. -/
theorem absolute_resolveAsPath_of_resolveAsTag {tag : Tag}
    (h : resolveAsTag context root name = .ok tag) :
    context.absolute (resolveAsPath root tag.text) =
      context.absolute (resolveAsPath root name) := by
  by_cases hname : IsTag name
  · rw [resolveAsTag, dif_pos hname] at h
    cases h
    rfl
  · rw [resolveAsTag, dif_neg hname] at h
    rw [resolveAsPath_of_isTag tag.marked, resolveAsPath_of_not_isTag hname]
    exact Tag.absolute_toPath_of_ofPath h

end Resolving

namespace Library

/-- Of any name in a library whose root is text. The path that the name is resolved to is text,
and resolved once more it stays as it is, unless the name is a tag, and the root begins with
two slashes and does not consist of slashes: then it moves as the root does twice. The tag that
the name is resolved to stays as it is, and stands for a path with the route of the path that
the name stands for. -/
theorem resolves_again (library : Library) (context : Context)
    (htext : library.root.toString? ≠ none) (name : String) :
    (∃ again, Path.ofString again = library.resolveAsPath name ∧
      (library.resolveAsPath again = library.resolveAsPath name ↔
        (IsTag name → library.root.LooksLikeTag → library.root.IsSlashes)) ∧
      (IsTag name → library.root.LooksLikeTag → (library.resolveAsPath again).moves =
        library.root.moves ++ (library.resolveAsPath name).moves)) ∧
    ∀ tag, library.resolveAsTag context name = .ok tag →
      library.resolveAsTag context tag.text = .ok tag ∧
      context.absolute (library.resolveAsPath tag.text) =
        context.absolute (library.resolveAsPath name) ∧
      (context.cwd.lost = 0 →
        ∃ route, context.absolute (library.resolveAsPath name) = .ok route) := by
  constructor
  · obtain ⟨again, hagain⟩ :=
      Option.ne_none_iff_exists'.1 (toString?_resolveAsPath htext name)
    have hback := Path.ofString_of_toString? hagain
    exact ⟨again, hback, resolveAsPath_again_iff hback, moves_resolveAsPath_again hback⟩
  · intro tag htag
    refine ⟨resolveAsTag_text tag, absolute_resolveAsPath_of_resolveAsTag htag, ?_⟩
    intro hcwd
    exact Context.exists_absolute hcwd _

end Library

namespace Context

/-- A root that goes through another directory. The path of a tag stays as it is, and the tag
of a path climbs from the root. -/
theorem shelf_resolves_again :
    (Path.ofString "A/../B").toString? ≠ none ∧
    Library.resolveAsPath ⟨.ofString "A/../B"⟩ "//x" = .ofString "A/../B/x" ∧
    Library.resolveAsPath ⟨.ofString "A/../B"⟩ "A/../B/x" = .ofString "A/../B/x" ∧
    Library.resolveAsTag ⟨.ofString "A/../B"⟩ shelf "./A/" =
      .ok ⟨"//../A", isTag_append "../A"⟩ ∧
    shelf.absolute (Library.resolveAsPath ⟨.ofString "A/../B"⟩ "//../A") =
      shelf.absolute (.ofString "./A/") := by
  have htext : (Path.ofString "A/../B").toString? ≠ none := by
    rw [Path.toString?_ofString]
    exact Option.some_ne_none _
  have hpath : Library.resolveAsPath ⟨.ofString "A/../B"⟩ "//x" = .ofString "A/../B/x" := by rfl
  have htag : Library.resolveAsTag ⟨.ofString "A/../B"⟩ shelf "./A/" =
      .ok ⟨"//../A", isTag_append "../A"⟩ := by rfl
  obtain ⟨⟨again, hagain, hsame, _⟩, _⟩ :=
    Library.resolves_again ⟨.ofString "A/../B"⟩ shelf htext "//x"
  obtain ⟨_, htags⟩ := Library.resolves_again ⟨.ofString "A/../B"⟩ shelf htext "./A/"
  obtain ⟨_, hroute, _⟩ := htags _ htag
  rw [hpath] at hagain hsame
  cases Path.ofString_inj hagain
  have hroot : ¬Path.LooksLikeTag (.ofString "A/../B") := by decide
  exact ⟨htext, hpath, hsame.2 fun _ hlooks => absurd hlooks hroot, htag, hroute⟩

/-- A library is made at a root that begins with two slashes. The path of its tag `//` is the
root, and is then taken for a tag itself. -/
theorem shelf_resolves_root_twice :
    ∃ library after, Library.init shelf (.ofString "//A") = .ok (library, after) ∧
      library.resolveAsPath "//" = .ofString "//A" ∧
      library.resolveAsPath "//A" = .ofString "//A/A" := by
  have hinit : ∃ after,
      Library.init shelf (.ofString "//A") = .ok (⟨.ofString "//A"⟩, after) := ⟨_, rfl⟩
  obtain ⟨after, hafter⟩ := hinit
  exact ⟨_, after, hafter, by rfl, by rfl⟩

end Context

end LinkTags
