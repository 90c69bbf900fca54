import BlockCircuit.File.Tree
import BlockCircuit.Proofs.Json.Yields

/-!
# Writing files

A path is looked up name by name, and every name but the last has to lead to a directory. Writing
changes what stands at the end of the path, which is no directory before and none afterwards, so no
path is looked up differently after it. How much of the text gets there is up to the device.

* `filePlace_eq_ok_iff` — a file can be written exactly when its path is one for a file;
* `resolve_put_eq_ok_iff` — paths lead where they led before;
* `Wrote`, `wrote_write` — a write comes to nothing, to a part of the file, or to the whole;
* `Receives`, `Begins` — some files hold some texts, or one of them the beginning of a text, and all
  else is as it was;
* `Wrote.receives`, `Wrote.eq_or_begins` — this is what writing a file does.
-/

namespace BlockCircuit.File

/-- A name that stands for a file or a directory by itself. -/
def IsPlain (name : String) : Prop :=
  name ≠ "" ∧ name ≠ "." ∧ name ≠ ".."

namespace Tree

variable {t t' : Tree} {path text : String} {place other start goal further : List String}
  {entry : Entry} {content : List UInt8} {fault : Fault}

/-! ## What stands at a place -/

theorem entry?_nil (t : Tree) : t.entry? [] = some .directory := rfl

theorem entry?_of_ne_nil (hplace : place ≠ []) : t.entry? place = t.entries.lookup place := by
  cases place with
  | nil => exact absurd rfl hplace
  | cons name place => rfl

/-- The root is a directory, so nothing can be put there. -/
theorem ne_nil_of_not_directory (h : t.entry? place ≠ some .directory) : place ≠ [] := by
  rintro rfl
  exact h (entry?_nil t)

theorem entry?_put_self (hplace : place ≠ []) : entry? (t.put place entry) place = some entry := by
  rw [entry?_of_ne_nil hplace, put, lookup_insertEntry, if_pos rfl]

theorem entry?_put_of_ne (hother : other ≠ place) :
    entry? (t.put place entry) other = t.entry? other := by
  by_cases hnil : other = []
  · rw [hnil, entry?_nil, entry?_nil]
  · rw [entry?_of_ne_nil hnil, entry?_of_ne_nil hnil, put, lookup_insertEntry, if_neg hother]

/-- Directories are where they were when a file is put where there is none of them. -/
theorem entry?_put_eq_directory_iff (hplace : t.entry? place ≠ some .directory) :
    entry? (t.put place (.file content)) other = some .directory ↔
      t.entry? other = some .directory := by
  by_cases hother : other = place
  · subst hother
    rw [entry?_put_self (ne_nil_of_not_directory hplace)]
    exact iff_of_false (by simp) hplace
  · rw [entry?_put_of_ne hother]

/-! ## Looking up paths -/

/-- A name leads on from a directory: nowhere else if it is empty or `.`, to the directory above if
it is `..`, and otherwise to the place of that name. -/
def next (place : List String) (name : String) : List String :=
  if name = "" ∨ name = "." then place
  else if name = ".." then place.dropLast
  else place ++ [name]

theorem walk_cons_eq_ok_iff {name : String} :
    t.walk start (name :: further) = .ok goal ↔
      t.entry? start = some .directory ∧ t.walk (next start name) further = .ok goal := by
  rw [walk, next]
  split
  · rename_i hentry
    simp [hentry]
  · rename_i hentry
    simp [hentry]
  · rename_i hentry
    rw [hentry]
    split
    · simp
    · split <;> simp

theorem walk_append_eq_ok_iff {front back : List String} :
    t.walk start (front ++ back) = .ok goal ↔
      ∃ middle, t.walk start front = .ok middle ∧ t.walk middle back = .ok goal := by
  induction front generalizing start with
  | nil => simp [walk]
  | cons name front ih =>
    rw [List.cons_append, walk_cons_eq_ok_iff, ih]
    simp only [walk_cons_eq_ok_iff, and_assoc, exists_and_left]

theorem walk_put_eq_ok_iff (hplace : t.entry? place ≠ some .directory) :
    (t.put place (.file content)).walk start further = .ok goal ↔
      t.walk start further = .ok goal := by
  induction further generalizing start with
  | nil => rfl
  | cons name further ih =>
    rw [walk_cons_eq_ok_iff, walk_cons_eq_ok_iff, entry?_put_eq_directory_iff hplace, ih]

/-- Paths lead where they led before when a file is put where there is no directory. -/
theorem resolve_put_eq_ok_iff (hplace : t.entry? place ≠ some .directory) :
    (t.put place (.file content)).resolve path = .ok goal ↔ t.resolve path = .ok goal := by
  by_cases hpath : path = ""
  · rw [resolve, resolve, if_pos hpath, if_pos hpath]
  · rw [resolve, resolve, if_neg hpath, if_neg hpath]
    exact walk_put_eq_ok_iff hplace

/-! ## Paths of files -/

theorem next_of_isPlain {name : String} (h : IsPlain name) : next place name = place ++ [name] := by
  obtain ⟨hempty, hdot, hdots⟩ := h
  simp [next, hempty, hdot, hdots]

/-- The path is one for a file: its last name is plain, the names before it lead to a directory, and
the name leads to no directory from there. -/
structure IsFilePath (t : Tree) (path : String) (place : List String) : Prop where
  names : ∃ front name parent, names path = front ++ [name] ∧ IsPlain name ∧
    t.walk (t.origin path) front = .ok parent ∧ t.entry? parent = some .directory ∧
      place = parent ++ [name]
  noDirectory : t.entry? place ≠ some .directory

/-- The empty path has no plain name. -/
theorem IsFilePath.ne_empty (h : t.IsFilePath path place) : path ≠ "" := by
  rintro rfl
  obtain ⟨front, name, parent, hnames, hname, -⟩ := h.names
  have hlast : some "" = (front ++ [name]).getLast? := congrArg List.getLast? hnames
  rw [List.getLast?_concat] at hlast
  exact hname.1 (Option.some.inj hlast).symm

/-- The path of a file leads to its place. -/
theorem IsFilePath.resolve (h : t.IsFilePath path place) : t.resolve path = .ok place := by
  rw [Tree.resolve, if_neg h.ne_empty]
  obtain ⟨front, name, parent, hnames, hname, hwalk, hparent, rfl⟩ := h.names
  rw [hnames, walk_append_eq_ok_iff]
  refine ⟨parent, hwalk, ?_⟩
  rw [walk_cons_eq_ok_iff, next_of_isPlain hname]
  exact ⟨hparent, rfl⟩

/-- The names of a path without the empty ones at its end are all its names exactly when the last
one is not empty. -/
theorem reverse_dropWhile_eq_self_iff {names : List String} {name : String} :
    ((names ++ [name]).reverse.dropWhile (· = "")).reverse = names ++ [name] ↔ name ≠ "" := by
  have hrev : (names ++ [name]).reverse = name :: names.reverse := by simp
  rw [hrev, List.reverse_eq_iff, hrev, List.dropWhile_cons]
  by_cases hname : name = ""
  · have hlength := (List.dropWhile_suffix (fun n => decide (n = "")) (l := names.reverse)).length_le
    refine iff_of_false ?_ (not_not_intro hname)
    intro h
    rw [if_pos (decide_eq_true hname)] at h
    rw [h, List.length_cons] at hlength
    omega
  · simp [hname]

theorem eq_of_not_length_lt {names : List String}
    (h : ¬(names.reverse.dropWhile (· = "")).reverse.length < names.length) :
    (names.reverse.dropWhile (· = "")).reverse = names := by
  have hsuffix := List.dropWhile_suffix (fun name => decide (name = "")) (l := names.reverse)
  rw [List.reverse_eq_iff]
  refine hsuffix.eq_of_length_le ?_
  rw [List.length_reverse] at h ⊢
  omega

/-- A file can be written exactly when its path is one for a file. -/
theorem filePlace_eq_ok_iff : t.filePlace path = .ok place ↔ t.IsFilePath path place := by
  constructor
  · intro h
    unfold filePlace at h
    split at h
    · cases h
    · obtain ⟨parent, hwalk, h⟩ := bind_eq_ok_iff.1 h
      split at h
      · cases h
      · cases h
      · cases h
      · rename_i name hparent hlast
        split at h
        · cases h
        · rename_i hname
          rw [not_or, not_or] at hname
          obtain ⟨hlength, hdot, hdots⟩ := hname
          dsimp only at h
          split at h
          · cases h
          · rename_i hentry
            cases h
            have hshown := eq_of_not_length_lt hlength
            rw [hshown] at hlast hwalk
            obtain ⟨front, hnames⟩ := List.getLast?_eq_some_iff.1 hlast
            rw [hnames, List.dropLast_concat] at hwalk
            have hempty : name ≠ "" := by
              rw [hnames] at hshown
              exact reverse_dropWhile_eq_self_iff.1 hshown
            refine ⟨?_, hentry⟩
            exact ⟨front, name, parent, hnames, ⟨hempty, hdot, hdots⟩, hwalk, hparent, rfl⟩
  · intro h
    have hpath := h.ne_empty
    obtain ⟨⟨front, name, parent, hnames, ⟨hempty, hdot, hdots⟩, hwalk, hparent, rfl⟩, hentry⟩ := h
    have hshown : ((front ++ [name]).reverse.dropWhile (· = "")).reverse = front ++ [name] :=
      reverse_dropWhile_eq_self_iff.2 hempty
    unfold filePlace
    rw [if_neg hpath]
    simp only [hnames, hshown, List.dropLast_concat, hwalk, List.getLast?_concat]
    refine bind_eq_ok_iff.2 ⟨parent, rfl, ?_⟩
    simp [hparent, hdot, hdots]

/-! ## What comes of a write -/

/-- What is left of a tree, and what went wrong. -/
inductive Wrote (t : Tree) (path text : String) : Tree → Option Fault → Prop
  /-- The file is not touched. -/
  | refused {fault : Fault} : Wrote t path text t (some fault)
  /-- Some bytes are written, but not all. -/
  | brokeOff {place : List String} {count : Nat} {fault : Fault} : t.IsFilePath path place →
      count < (Text.toBytes text).length →
        Wrote t path text (t.put place (.file ((Text.toBytes text).take count))) (some fault)
  /-- The whole text is written. -/
  | whole {place : List String} : t.IsFilePath path place →
      Wrote t path text (t.put place (.file (Text.toBytes text))) none

theorem wrote_write (t : Tree) (path text : String) :
    Wrote t path text (t.write path text).1 (t.write path text).2 := by
  rw [write]
  cases hplace : t.filePlace path with
  | error fault => exact .refused
  | ok place =>
    have hfile := filePlace_eq_ok_iff.1 hplace
    dsimp only
    rw [store]
    split
    · exact .refused
    · split
      · exact .whole hfile
      · split
        · rename_i hcount
          exact .brokeOff hfile hcount
        · exact .whole hfile

/-! ## What files hold -/

/-- The path leads to a file with this content. -/
def Holds (t : Tree) (path : String) (content : List UInt8) : Prop :=
  ∃ place, t.resolve path = .ok place ∧ t.entry? place = some (.file content)

/-- The two trees differ at most in what some paths lead to. -/
structure KeepsBut (t : Tree) (paths : List String) (t' : Tree) : Prop where
  entry : ∀ place, (∀ path ∈ paths, t.resolve path ≠ .ok place) → t'.entry? place = t.entry? place
  start : t'.start = t.start
  device : t'.device = t.device

/-- The files of these paths hold these texts in the second tree, and all else is as it is in the
first one. -/
structure Receives (t : Tree) (files : List (String × String)) (t' : Tree) : Prop where
  holds : ∀ file ∈ files, t'.Holds file.1 (Text.toBytes file.2)
  keeps : t.KeepsBut (files.map Prod.fst) t'

/-- A file that holds a text is read as this text, if the device gives access to it. -/
theorem Holds.read (h : t.Holds path (Text.toBytes text))
    (hdevice : ∀ place, t.device.refuses t.entries place .reading = none) :
    t.read path = .ok text := by
  obtain ⟨place, hresolve, hentry⟩ := h
  have hbytes : t.readBytes path = .ok (Text.toBytes text) := by
    refine bind_eq_ok_iff.2 ⟨place, hresolve, ?_⟩
    rw [hentry]
    dsimp only
    rw [hdevice]
  refine bind_eq_ok_iff.2 ⟨Text.toBytes text, hbytes, ?_⟩
  rw [Text.ofBytes?_toBytes]

theorem IsFilePath.resolve_put (h : t.IsFilePath path place) :
    (t.put place (.file content)).resolve path = .ok place :=
  (resolve_put_eq_ok_iff h.noDirectory).2 h.resolve

theorem IsFilePath.entry?_put (h : t.IsFilePath path place) :
    entry? (t.put place (.file content)) place = some (.file content) :=
  entry?_put_self (ne_nil_of_not_directory h.noDirectory)

theorem IsFilePath.holds_put (h : t.IsFilePath path place) :
    (t.put place (.file content)).Holds path content :=
  ⟨place, h.resolve_put, h.entry?_put⟩

/-- A file holds what it held after something is put elsewhere. -/
theorem holds_put_of_ne {content' : List UInt8} (hresolve : t.resolve path = .ok place)
    (hentry : t.entry? place = some (.file content)) (hother : t.entry? other ≠ some .directory)
    (hne : place ≠ other) : (t.put other (.file content')).Holds path content :=
  ⟨place, (resolve_put_eq_ok_iff hother).2 hresolve, by rw [entry?_put_of_ne hne, hentry]⟩

theorem IsFilePath.keepsBut_put (h : t.IsFilePath path place) :
    t.KeepsBut [path] (t.put place (.file content)) where
  entry other hother := by
    refine entry?_put_of_ne ?_
    rintro rfl
    exact hother path List.mem_cons_self h.resolve
  start := rfl
  device := rfl

section
variable {stop : Option Fault} {paths : List String} {t₁ : Tree}

/-- A write does not change where paths lead. -/
theorem Wrote.resolve_eq_ok_iff {other : String} (h : Wrote t path text t' stop) :
    t'.resolve other = .ok goal ↔ t.resolve other = .ok goal := by
  cases h with
  | refused => rfl
  | brokeOff hfile | whole hfile => exact resolve_put_eq_ok_iff hfile.noDirectory

/-- A write changes nothing but its file. -/
theorem Wrote.keepsBut (h : Wrote t path text t' stop) : t.KeepsBut [path] t' := by
  cases h with
  | refused => exact ⟨fun _ _ => rfl, rfl, rfl⟩
  | brokeOff hfile | whole hfile => exact hfile.keepsBut_put

/-- What changes nothing but some files after a write changes nothing but these and its file. -/
theorem Wrote.keepsBut_cons (h : Wrote t path text t₁ stop) (hkeeps : t₁.KeepsBut paths t') :
    t.KeepsBut (path :: paths) t' where
  entry place hplace := by
    rw [List.forall_mem_cons] at hplace
    have hrest : ∀ other ∈ paths, t₁.resolve other ≠ .ok place :=
      fun other hother hresolve => hplace.2 other hother (h.resolve_eq_ok_iff.1 hresolve)
    rw [hkeeps.entry place hrest, h.keepsBut.entry place (List.forall_mem_singleton.2 hplace.1)]
  start := hkeeps.start.trans h.keepsBut.start
  device := hkeeps.device.trans h.keepsBut.device

end

/-- A file that is written holds the text, and all else is as it was. -/
theorem Wrote.receives (h : Wrote t path text t' none) : t.Receives [(path, text)] t' := by
  cases h with
  | whole hfile => exact ⟨List.forall_mem_singleton.2 hfile.holds_put, hfile.keepsBut_put⟩

end Tree

end BlockCircuit.File
