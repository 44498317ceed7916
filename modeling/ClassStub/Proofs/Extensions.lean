import Mathlib.Data.List.TakeWhile
import ClassStub.Proofs.PathBeginnings

/-!
# Extensions and the paths beside a file

A path to a file is the name of the file behind something that is empty or ends in a slash
(`Path.exists_front`). The name is cut at its last dot, unless this is its first byte
(`Path.splitExtension?_eq_some_iff`), and setting an extension exchanges what is behind that dot
(`Path.withExtension_of_front`). If the new extension has a dot in it, then the file is always
another one than before (`Path.withExtension_cases`).

One kind of name is an exception. The old extension is taken off with the dot left standing, and a
name such as `..class` is then the step `..`, to which nothing can be added. The path leads to a
directory in this case.
-/

namespace ClassStub

open FileName

namespace Path

/-! ### Cutting a file name -/

/-- A file name is cut at its last dot, in front of which something must stand. -/
theorem splitExtension?_eq_some_iff {name stem extension : Bytes} :
    splitExtension? name = some (stem, extension) ↔
      stem ≠ [] ∧ dot ∉ extension ∧ name = stem ++ dot :: extension := by
  constructor
  · intro h
    -- in reverse, the extension is what stands in front of the first dot
    have hcut := List.takeWhile_append_dropWhile (p := (· != dot)) (l := name.reverse)
    have hdot := List.head?_dropWhile_not (· != dot) name.reverse
    rw [splitExtension?] at h
    split at h
    case h_1 first c rest hdrop =>
      rw [hdrop] at hcut hdot
      obtain rfl : first = dot := by simpa using hdot
      obtain ⟨rfl, rfl⟩ := Prod.mk.inj (Option.some.inj h)
      refine ⟨by simp, ?_, ?_⟩
      · intro hmem
        have hinside := List.mem_takeWhile_imp (List.mem_reverse.1 hmem)
        simp at hinside
      · have hname := congrArg List.reverse hcut
        rw [List.reverse_reverse, List.reverse_append, List.reverse_cons, List.append_assoc,
          List.singleton_append] at hname
        exact hname.symm
    case h_2 => exact nomatch h
  · rintro ⟨hstem, hextension, rfl⟩
    have hinside : ∀ c ∈ extension.reverse, (c != dot) = true := by
      intro c hmem
      refine bne_iff_ne.2 ?_
      rintro rfl
      exact hextension (List.mem_reverse.1 hmem)
    obtain ⟨c, rest, hrest⟩ := List.exists_cons_of_ne_nil (List.reverse_ne_nil_iff.2 hstem)
    -- reversed, the name is cut at the dot where it was put together
    have hreverse : (stem ++ dot :: extension).reverse = extension.reverse ++ dot :: c :: rest := by
      rw [List.reverse_append, List.reverse_cons, hrest]
      simp
    rw [splitExtension?, hreverse, List.dropWhile_append_of_pos hinside,
      List.dropWhile_cons_of_neg (by simp), List.takeWhile_append_of_pos hinside,
      List.takeWhile_cons_of_neg (by simp), List.append_nil, List.reverse_reverse]
    dsimp only
    rw [← hrest, List.reverse_reverse]

/-- A file name without a dot behind its first character has no extension. -/
private theorem splitExtension?_eq_none_iff {name : Bytes} :
    splitExtension? name = none ↔ dot ∉ name.tail := by
  constructor
  · intro hnone hmem
    obtain ⟨c, rest, rfl⟩ : ∃ c rest, name = c :: rest := by
      refine List.exists_cons_of_ne_nil ?_
      rintro rfl
      exact absurd hmem List.not_mem_nil
    -- the last dot is the first one of the reversed name
    obtain ⟨back, front, hsplit, hback⟩ := List.eq_append_cons_of_mem (List.mem_reverse.2 hmem)
    have hname : c :: rest = (c :: front.reverse) ++ dot :: back.reverse := by
      have hrest : rest = (back ++ dot :: front).reverse := by
        rw [← hsplit, List.tail_cons, List.reverse_reverse]
      rw [hrest]
      simp
    have hsome := splitExtension?_eq_some_iff.2
      ⟨List.cons_ne_nil c front.reverse, fun h => hback (List.mem_reverse.1 h), hname⟩
    exact nomatch hnone.symm.trans hsome
  · intro hnot
    cases hsplit : splitExtension? name with
    | none => rfl
    | some cut =>
      obtain ⟨stem, extension⟩ := cut
      obtain ⟨hstem, -, rfl⟩ := splitExtension?_eq_some_iff.1 hsplit
      obtain ⟨c, rest, rfl⟩ := List.exists_cons_of_ne_nil hstem
      exact absurd (by simp) hnot

/-- The extension is what follows the last dot, if anything stands in front of that dot. -/
theorem extensionOf?_eq_some_iff {name extension : Bytes} (hdot : dot ∉ extension) :
    extensionOf? name = some extension ↔ ∃ stem, stem ≠ [] ∧ name = stem ++ dot :: extension := by
  rw [extensionOf?, Option.map_eq_some_iff]
  constructor
  · rintro ⟨⟨stem, extension'⟩, hsplit, rfl⟩
    obtain ⟨hstem, -, hname⟩ := splitExtension?_eq_some_iff.1 hsplit
    exact ⟨stem, hstem, hname⟩
  · rintro ⟨stem, hstem, rfl⟩
    exact ⟨(stem, extension), splitExtension?_eq_some_iff.2 ⟨hstem, hdot, rfl⟩, rfl⟩

/-! ### The file name at the end of a path -/

/-- What stands in front of a file name: nothing, or something that ends in a slash. -/
def IsFront (front : Bytes) : Prop := front = [] ∨ ∃ above, front = above ++ [slash]

/-- What is in front of a file name makes up pieces of its own. -/
private theorem IsFront.exists_pieces {front : Bytes} (h : IsFront front) :
    ∃ before, ∀ name, slash ∉ name → pieces (front ++ name) = before ++ [name] := by
  obtain rfl | ⟨above, rfl⟩ := h
  · exact ⟨[], fun name hname => pieces_of_no_slash hname⟩
  · refine ⟨pieces above, fun name hname => ?_⟩
    rw [List.append_assoc, List.singleton_append, pieces_append_slash, pieces_of_no_slash hname]

/-- A path that leads to a file has the name of the file at its end. -/
theorem exists_front {path : Path} {name : FileName} (hname : path.lastName? = some name)
    (hends : path.endsInSlash = false) :
    ∃ front, IsFront front ∧ path.bytes = front ++ name ∧ slash ∉ name ∧ name ≠ [] ∧
      name ≠ here := by
  obtain ⟨before, hpieces, hempty, hhere⟩ := exists_pieces_of_lastName? hname hends
  have hbytes := glue_pieces path.bytes
  have hslash := slash_not_mem_pieces path.bytes
  have hlast : glue [name] = name := List.intercalate_singleton ..
  rw [hpieces] at hbytes hslash
  have hend : slash ∉ name := hslash _ (List.mem_append_right _ List.mem_cons_self)
  by_cases hnil : before = []
  · refine ⟨[], .inl rfl, ?_, hend, hempty, hhere⟩
    rw [← hbytes, hnil, List.nil_append, List.nil_append, hlast]
  · refine ⟨glue before ++ [slash], .inr ⟨_, rfl⟩, ?_, hend, hempty, hhere⟩
    rw [← hbytes, glue_append hnil (List.cons_ne_nil _ _), hlast, List.append_assoc,
      List.singleton_append]

section AtTheEnd

variable {path : Path} {front : Bytes} {name : FileName} (hfront : IsFront front)
  (hbytes : path.bytes = front ++ name) (hslash : slash ∉ name) (hempty : name ≠ [])
  (hhere : name ≠ here)

include hfront hbytes hslash hempty

private theorem exists_steps_of_front : ∃ above, path.steps = above ++ [name] := by
  obtain ⟨before, hbefore⟩ := hfront.exists_pieces
  have hstep : stepsOf [name] = [name] := by
    rw [stepsOf, List.filter_singleton, show (!name.isEmpty) = true by simpa using hempty]
    rfl
  refine ⟨stepsOf before, ?_⟩
  rw [steps_eq, hbytes, hbefore name hslash, stepsOf_append, hstep]

include hhere

/-- The name at the end of the path is its file name, unless it is a step upwards. -/
private theorem fileName?_of_front : path.fileName? = if name = up then none else some name := by
  obtain ⟨above, habove⟩ := exists_steps_of_front hfront hbytes hslash hempty
  have hmove : [name].filter (· != here) = [name] :=
    List.filter_eq_self.2 (by simpa using hhere)
  rw [fileName?, moves, habove, List.filter_append, hmove, List.getLast?_concat,
    Option.filter_some]
  by_cases hup : name = up <;> simp [hup]

private theorem lastName?_of_front : path.lastName? = if name = up then none else some name := by
  obtain ⟨above, habove⟩ := exists_steps_of_front hfront hbytes hslash hempty
  rw [lastName?, habove, List.getLast?_concat, Option.filter_some, bne_iff_ne.2 hhere,
    Bool.true_and]
  by_cases hup : name = up <;> simp [hup]

/-! ### Exchanging the extension -/

omit hfront hbytes in
/-- There is nothing to trim behind a file name. -/
private theorem trimReversed_of_name (rest : Bytes) :
    trimReversed (name.reverse ++ rest) = name.reverse ++ rest := by
  obtain ⟨byte, others, hreverse⟩ :=
    List.exists_cons_of_ne_nil (List.reverse_ne_nil_iff.2 hempty)
  have hslash' : slash ∉ byte :: others := by
    rw [← hreverse, List.mem_reverse]
    exact hslash
  rw [List.mem_cons, not_or] at hslash'
  have hbyte : byte ≠ slash := Ne.symm hslash'.1
  rw [hreverse, List.cons_append]
  cases others with
  | nil =>
    have hdot : byte ≠ dot := by
      rintro rfl
      exact hhere (List.reverse_eq_iff.1 hreverse)
    cases rest with
    | nil => simp [trimReversed, hbyte]
    | cons next rest => simp [trimReversed, hbyte, hdot]
  | cons next others =>
    rw [List.mem_cons, not_or] at hslash'
    have hnext : next ≠ slash := Ne.symm hslash'.2.1
    simp [trimReversed, hbyte, hnext]

/-- What is cut off from a path to find what is in front of its file name. -/
private theorem setExtension_of_front (hup : name ≠ up) (extension : Bytes) :
    path.setExtension extension = ⟨front ++ stemOf name ++ dot :: extension⟩ := by
  have hfile := fileName?_of_front hfront hbytes hslash hempty hhere
  rw [if_neg hup] at hfile
  have htrim := trimReversed_of_name hslash hempty hhere front.reverse
  rw [setExtension, hfile]
  dsimp only
  rw [hbytes, List.reverse_append, htrim, ← @List.length_reverse _ name, List.drop_left,
    List.reverse_reverse]

private theorem withoutExtension_of_none (hup : name ≠ up) (hsplit : splitExtension? name = none) :
    path.withoutExtension = path := by
  have hfile := fileName?_of_front hfront hbytes hslash hempty hhere
  rw [if_neg hup] at hfile
  rw [withoutExtension, extension?, hfile, Option.bind_some, extensionOf?, hsplit]
  rfl

/-- The dot of the extension stays. -/
private theorem bytes_withoutExtension_of_some (hup : name ≠ up) {stem old : Bytes}
    (hsplit : splitExtension? name = some (stem, old)) :
    path.withoutExtension.bytes = front ++ (stem ++ [dot]) := by
  obtain ⟨-, -, hname⟩ := splitExtension?_eq_some_iff.1 hsplit
  have hfile := fileName?_of_front hfront hbytes hslash hempty hhere
  rw [if_neg hup] at hfile
  have hcut : front ++ (stem ++ dot :: old) = (front ++ (stem ++ [dot])) ++ old := by simp
  have hlength : path.bytes.length - old.length = (front ++ (stem ++ [dot])).length := by
    rw [hbytes, hname, hcut, List.length_append, Nat.add_sub_cancel]
  rw [withoutExtension, extension?, hfile, Option.bind_some, extensionOf?, hsplit]
  dsimp only [Option.map_some]
  rw [hlength, hbytes, hname, hcut, List.take_left]

/-- The new extension stands behind the stem of the file name, unless there is no file name left
when the old one is taken off. -/
theorem withExtension_of_front (hup : name ≠ up) (extension : Bytes) :
    path.withExtension extension =
      if stemOf name = [dot] then
        ⟨front ++ up⟩
      else
        ⟨front ++ stemOf name ++ dot :: extension⟩ := by
  rw [withExtension]
  cases hsplit : splitExtension? name with
  | none =>
    have hstem : stemOf name = name := by rw [stemOf, hsplit]
    have hnot : stemOf name ≠ [dot] := by
      rw [hstem]
      exact hhere
    rw [withoutExtension_of_none hfront hbytes hslash hempty hhere hup hsplit, if_neg hnot]
    exact setExtension_of_front hfront hbytes hslash hempty hhere hup extension
  | some cut =>
    obtain ⟨stem, old⟩ := cut
    obtain ⟨hstem, -, hname⟩ := splitExtension?_eq_some_iff.1 hsplit
    have hstemOf : stemOf name = stem := by rw [stemOf, hsplit]
    have hleft := bytes_withoutExtension_of_some hfront hbytes hslash hempty hhere hup hsplit
    rw [hstemOf]
    by_cases hdots : stem = [dot]
    · -- a step upwards is left, and no file name
      rw [hdots] at hleft
      have hdir : path.withoutExtension.bytes = front ++ up := hleft
      have hfile := fileName?_of_front hfront hdir (by decide) (by decide) (by decide)
      rw [if_pos rfl] at hfile
      rw [if_pos hdots, setExtension, hfile]
      exact congrArg Path.mk hdir
    · have hslash' : slash ∉ stem ++ [dot] := by
        rw [hname, List.mem_append, not_or] at hslash
        simpa using ⟨hslash.1, (by decide : slash ≠ dot)⟩
      have hempty' : stem ++ [dot] ≠ [] := List.append_ne_nil_of_right_ne_nil _ (by simp)
      have hhere' : stem ++ [dot] ≠ here := fun h => hstem (List.append_cancel_right h)
      have hup' : stem ++ [dot] ≠ up := fun h => hdots (List.append_cancel_right h)
      have hstem' : stemOf (stem ++ [dot]) = stem := by
        rw [stemOf, splitExtension?_eq_some_iff.2 ⟨hstem, List.not_mem_nil, rfl⟩]
      rw [if_neg hdots, setExtension_of_front hfront hleft hslash' hempty' hhere' hup', hstem']

end AtTheEnd

/-! ### The path beside a file -/

/-- The other path leads to the same directory, to a name with the extension in place of the one
that there was, or behind the whole name if there was none. -/
def IsBeside (path : Path) (extension : Bytes) (other : Path) : Prop :=
  ∃ front stem, IsFront front ∧ stem ≠ [] ∧ slash ∉ stem ∧
    other.bytes = front ++ stem ++ dot :: extension ∧
    ((path.bytes = front ++ stem ∧ dot ∉ stem.tail) ∨
      ∃ old, dot ∉ old ∧ slash ∉ old ∧ path.bytes = front ++ stem ++ dot :: old)

/-- A file name is its stem, or its stem and an extension. -/
private theorem stemOf_cases (name : FileName) :
    (stemOf name = name ∧ dot ∉ name.tail) ∨
      (stemOf name ≠ [] ∧ ∃ old, dot ∉ old ∧ name = stemOf name ++ dot :: old) := by
  rw [stemOf]
  cases hsplit : splitExtension? name with
  | none => exact .inl ⟨rfl, splitExtension?_eq_none_iff.1 hsplit⟩
  | some cut =>
    obtain ⟨hstem, hdot, hname⟩ := splitExtension?_eq_some_iff.1 hsplit
    exact .inr ⟨hstem, cut.2, hdot, hname⟩

/-- Setting an extension with a dot in it gives the path beside a file, which has another name than
the file, or a path to a directory. -/
theorem withExtension_cases {path : Path} {name : FileName} {extension : Bytes}
    (hname : path.lastName? = some name) (hends : path.endsInSlash = false)
    (hslash : slash ∉ extension) (hdot : dot ∈ extension) :
    (path.withExtension extension).lastName? = none ∨
      (path.IsBeside extension (path.withExtension extension) ∧
        ∃ other, (path.withExtension extension).lastName? = some other ∧ other ≠ name) := by
  obtain ⟨front, hfront, hbytes, hnameSlash, hempty, hhere⟩ := exists_front hname hends
  have hup := ne_up_of_lastName? hname
  rw [withExtension_of_front hfront hbytes hnameSlash hempty hhere hup extension]
  split
  case isTrue =>
    have hdir : (⟨front ++ up⟩ : Path).bytes = front ++ up := rfl
    exact .inl (lastName?_of_front hfront hdir (by decide) (by decide) (by decide))
  case isFalse hdots =>
    obtain ⟨hstem, hstemSlash, hne⟩ : stemOf name ≠ [] ∧ slash ∉ stemOf name ∧
        stemOf name ++ dot :: extension ≠ name := by
      obtain ⟨hstem, -⟩ | ⟨hstem, old, hold, hcut⟩ := stemOf_cases name
      · rw [hstem]
        exact ⟨hempty, hnameSlash, by simp⟩
      · refine ⟨hstem, ?_, ?_⟩
        · rw [hcut, List.mem_append, not_or] at hnameSlash
          exact hnameSlash.1
        · intro heq
          -- the old extension has no dot in it
          have hrest := List.append_cancel_left (heq.trans hcut)
          exact hold ((List.cons.inj hrest).2 ▸ hdot)
    have hbytes' : (⟨front ++ stemOf name ++ dot :: extension⟩ : Path).bytes =
        front ++ (stemOf name ++ dot :: extension) := List.append_assoc ..
    have hotherSlash : slash ∉ stemOf name ++ dot :: extension := by
      simpa using ⟨hstemSlash, (by decide : slash ≠ dot), hslash⟩
    have hlong : 2 < (stemOf name ++ dot :: extension).length := by
      have hpos := List.length_pos_iff.2 hstem
      have hpos' := List.length_pos_of_mem hdot
      rw [List.length_append, List.length_cons]
      omega
    have hnot : ∀ short : FileName, short.length ≤ 2 → stemOf name ++ dot :: extension ≠ short := by
      rintro short hshort rfl
      omega
    have hlast := lastName?_of_front hfront hbytes' hotherSlash (hnot [] (by decide))
      (hnot here (by decide))
    rw [if_neg (hnot up (by decide))] at hlast
    refine .inr ⟨⟨front, stemOf name, hfront, hstem, hstemSlash, rfl, ?_⟩, _, hlast, hne⟩
    obtain ⟨hwhole, hnone⟩ | ⟨-, old, hold, hcut⟩ := stemOf_cases name
    · rw [hwhole]
      exact .inl ⟨hbytes, hnone⟩
    · refine .inr ⟨old, hold, ?_, ?_⟩
      · rw [hcut, List.mem_append, List.mem_cons, not_or, not_or] at hnameSlash
        exact hnameSlash.2.2
      · rw [List.append_assoc, ← hcut, hbytes]

end Path

end ClassStub
