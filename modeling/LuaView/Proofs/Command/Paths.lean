import LuaView.Command.Disk
import Mathlib.Data.List.Basic
import Mathlib.Data.List.TakeWhile

/-!
# Where paths lead

The parts of a path, and the places that they lead to.  A file can be named from the working
directory or from the root: behind the names on the way to the working directory, a path leads to
where it leads without them.
-/

namespace LuaView
namespace Disk

/-! ## Parts -/

theorem splitSlashes_ne_nil (cs : List Char) :
    splitSlashes cs ≠ [] := by
  cases cs with
  | nil => exact List.cons_ne_nil _ _
  | cons c cs =>
      rw [splitSlashes]
      split
      · exact List.cons_ne_nil _ _
      · split <;> exact List.cons_ne_nil _ _

/-- A part reaches up to the next slash. -/
theorem splitSlashes_append
    {cs rest : List Char}
    {parts : List (List Char)}
    (hcs : '/' ∉ cs)
    (hrest : splitSlashes rest = [] :: parts) :
    splitSlashes (cs ++ rest) = cs :: parts := by
  induction cs with
  | nil => exact hrest
  | cons c cs ih =>
      have hc : c ≠ '/' := fun hc => hcs (hc ▸ List.mem_cons_self)
      have hmore := ih fun hmem => hcs (List.mem_cons_of_mem c hmem)
      rw [List.cons_append, splitSlashes, if_neg hc, hmore]

/-- The first part of a path that does not start from the root is not empty. -/
theorem exists_parts_eq_cons
    {path : String}
    (hpath : path ≠ "")
    (hrelative : path.toList.head? ≠ some '/') :
    ∃ first rest, parts path = first :: rest ∧ first ≠ "" := by
  obtain ⟨c, cs, hcs⟩ := List.exists_cons_of_ne_nil (show path.toList ≠ [] by simpa using hpath)
  have hc : c ≠ '/' := fun hc => hrelative (by rw [hcs, hc]; rfl)
  obtain ⟨part, more, hmore⟩ := List.exists_cons_of_ne_nil (splitSlashes_ne_nil cs)
  refine ⟨String.ofList (c :: part), more.map String.ofList, ?_, by simp⟩
  rw [parts, hcs, splitSlashes, if_neg hc, hmore]
  rfl

/-! ## Walks -/

variable {disk : Disk}

theorem walk_append
    (place : Place)
    (front behind : List String) :
    disk.walk place (front ++ behind) =
      (disk.walk place front).bind fun last => disk.walk last behind := by
  induction front generalizing place with
  | nil => rfl
  | cons part front ih =>
      rw [List.cons_append, walk, walk]
      split
      · rfl
      · rfl
      · exact ih _

/-- Parts that stand for themselves in a path. -/
def IsName (part : String) : Prop :=
  part ≠ "" ∧ part ≠ "." ∧ part ≠ ".." ∧ '/' ∉ part.toList

theorem step_of_isName
    {part : String}
    (hpart : IsName part)
    (place : Place) :
    step place part = place ++ [part] := by
  obtain ⟨hempty, hdot, hdots, -⟩ := hpart
  rw [step, if_neg (by simp [hempty, hdot]), if_neg hdots]

/-- The names on the way to a place lead to it. -/
theorem walk_names
    {front behind : Place}
    (hnames : ∀ part ∈ behind, IsName part)
    (hdirectories : ∀ place, place <+: front ++ behind → disk.lookup? place = some .directory) :
    disk.walk front behind = .ok (front ++ behind) := by
  induction behind generalizing front with
  | nil => rw [walk, List.append_nil]
  | cons part behind ih =>
      have happend : front ++ [part] ++ behind = front ++ part :: behind :=
        (List.append_cons front part behind).symm
      rw [walk, hdirectories front (List.prefix_append _ _)]
      simp only
      rw [step_of_isName (hnames part List.mem_cons_self),
        ih (fun name hname => hnames name (List.mem_cons_of_mem part hname))
          (fun place hplace => hdirectories place (happend ▸ hplace)), happend]

/-! ## Paths from the root -/

/-- The working directory can be reached from the root. -/
structure IsReachable (disk : Disk) : Prop where
  names : ∀ part ∈ disk.workingDirectory, IsName part
  directories : ∀ place, place <+: disk.workingDirectory → disk.lookup? place = some .directory

/-- A path with the way from the root to the working directory in front of it. -/
def absolute (disk : Disk) (path : String) : String :=
  String.ofList
    (disk.workingDirectory.flatMap (fun name => '/' :: name.toList) ++ '/' :: path.toList)

theorem splitSlashes_names
    {names : List String}
    (hnames : ∀ part ∈ names, IsName part)
    (cs : List Char) :
    splitSlashes (names.flatMap (fun name => '/' :: name.toList) ++ '/' :: cs) =
      [] :: (names.map String.toList ++ splitSlashes cs) := by
  induction names with
  | nil => rfl
  | cons name names ih =>
      have hslash := (hnames name List.mem_cons_self).2.2.2
      have hrest := ih fun part hpart => hnames part (List.mem_cons_of_mem name hpart)
      rw [List.flatMap_cons, List.cons_append, List.cons_append, splitSlashes, if_pos rfl,
        List.append_assoc, splitSlashes_append hslash hrest]
      rfl

theorem parts_absolute
    (hreachable : disk.IsReachable)
    (path : String) :
    parts (disk.absolute path) = "" :: (disk.workingDirectory ++ parts path) := by
  rw [parts, absolute, String.toList_ofList, splitSlashes_names hreachable.names, List.map_cons,
    List.map_append, List.map_map]
  simp [Function.comp_def, parts]

/-- From the root the way leads through the working directory. -/
theorem walk_absolute
    (hreachable : disk.IsReachable)
    (path : String)
    (behind : List String) :
    disk.walk (disk.start (disk.absolute path)) ("" :: (disk.workingDirectory ++ behind)) =
      disk.walk disk.workingDirectory behind := by
  have hstart : disk.start (disk.absolute path) = [] := by
    refine if_pos ?_
    rw [absolute, String.toList_ofList]
    cases disk.workingDirectory <;> rfl
  have hnames : disk.walk [] disk.workingDirectory = .ok disk.workingDirectory :=
    walk_names hreachable.names hreachable.directories
  rw [hstart, walk]
  change disk.walk [] (disk.workingDirectory ++ behind) = _
  rw [walk_append, hnames]
  rfl

theorem absolute_ne_empty (disk : Disk) (path : String) :
    disk.absolute path ≠ "" := by
  intro hempty
  have hchars := congrArg String.toList hempty
  rw [absolute, String.toList_ofList] at hchars
  simp at hchars

theorem start_of_relative
    {path : String}
    (hrelative : path.toList.head? ≠ some '/') :
    disk.start path = disk.workingDirectory :=
  if_neg hrelative

/-- A file is read under its name from the root as under its name from the working directory. -/
theorem read_absolute
    (hreachable : disk.IsReachable)
    {path : String}
    (hpath : path ≠ "")
    (hrelative : path.toList.head? ≠ some '/') :
    disk.read (disk.absolute path) = disk.read path := by
  rw [read, read, if_neg (absolute_ne_empty disk path), if_neg hpath, parts_absolute hreachable,
    walk_absolute hreachable, start_of_relative hrelative]

/-- Empty parts at the end of a path are left out in the same way behind other parts. -/
theorem trimmed_append
    {parts : List String}
    (hparts : ∃ part ∈ parts, part ≠ "")
    (front : List String) :
    ((front ++ parts).reverse.dropWhile (· == "")).reverse =
      front ++ (parts.reverse.dropWhile (· == "")).reverse := by
  have hne : (parts.reverse.dropWhile (· == "")).isEmpty = false := by
    obtain ⟨part, hmem, hpart⟩ := hparts
    rw [List.isEmpty_eq_false_iff, ne_eq, List.dropWhile_eq_nil_iff]
    exact fun hall => hpart (by simpa using hall part (List.mem_reverse.mpr hmem))
  rw [List.reverse_append, List.dropWhile_append, hne, if_neg Bool.false_ne_true,
    List.reverse_append, List.reverse_reverse]

/-- A file is written under its name from the root as under its name from the working
directory. -/
theorem write_absolute
    (hreachable : disk.IsReachable)
    {path : String}
    (hpath : path ≠ "")
    (hrelative : path.toList.head? ≠ some '/')
    (content : ByteArray) :
    disk.write (disk.absolute path) content = disk.write path content := by
  obtain ⟨first, rest, hparts, hfirst⟩ := exists_parts_eq_cons hpath hrelative
  have hnonempty : ∃ part ∈ parts path, part ≠ "" :=
    ⟨first, hparts ▸ List.mem_cons_self, hfirst⟩
  have hslash : endsWithSlash (disk.absolute path) = endsWithSlash path := by
    have hchars : path.toList ≠ [] := by simpa using hpath
    rw [endsWithSlash, absolute, String.toList_ofList, List.getLast?_append,
      List.getLast?_cons_of_ne_nil hchars, Option.or_of_isSome (List.getLast?_isSome.mpr hchars),
      endsWithSlash]
  rw [write, write, if_neg (absolute_ne_empty disk path), if_neg hpath, parts_absolute hreachable,
    ← List.cons_append, trimmed_append hnonempty, List.cons_append, walk_absolute hreachable,
    start_of_relative hrelative, hslash]

end Disk
end LuaView
