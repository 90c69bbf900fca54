import BlockCircuit.Identifier
import Mathlib.Data.Set.Function

/-!
# Names of modules

The module of a circuit is named after the path that leads to the circuit: the name of the outermost
module, then an underscore and a token for each type name of the path. The path can be read back
from the name when the tokens of all type names are equally long and different.

* `toList_moduleName` — the name of a module as a list of characters;
* `moduleName_eq_append_join` — the name of a module as a text;
* `moduleName_prefix_iff` — one name begins another exactly when the one path begins the other;
* `moduleName_injOn` — the path is determined by the name;
* `foldl_childName_eq_iff` — the same, with what is asked of the tokens said.
-/

namespace BlockCircuit

/-- The name of the module at the end of a path of type names, below the module `top`. -/
def moduleName (s : Sanitizer) (top : String) (path : List String) : String :=
  path.foldl s.childName top

namespace Sanitizer

/-- The tokens of these names are equally long and different. -/
structure Separates (s : Sanitizer) (names : Set String) : Prop where
  /-- The tokens are equally long. -/
  length : ∀ t ∈ names, ∀ u ∈ names, (s.token t).length = (s.token u).length
  /-- Different names have different tokens. -/
  injOn : names.InjOn s.token

instance (s : Sanitizer) (names : List String) : Decidable (s.Separates {t | t ∈ names}) :=
  decidable_of_iff
    (∀ t ∈ names, ∀ u ∈ names,
      (s.token t).length = (s.token u).length ∧ (s.token t = s.token u → t = u))
    ⟨fun h => ⟨fun t ht u hu => (h t ht u hu).1, fun t ht u hu => (h t ht u hu).2⟩,
      fun h t ht u hu => ⟨h.length t ht u hu, h.injOn ht hu⟩⟩

/-- What a step of a path adds to the name of a module. -/
def suffix (s : Sanitizer) (t : String) : List Char :=
  '_' :: (s.token t).toList

theorem toList_childName (s : Sanitizer) (parent t : String) :
    (s.childName parent t).toList = parent.toList ++ s.suffix t := by
  simp [childName, suffix]

theorem childName_ne_empty (s : Sanitizer) (parent t : String) : s.childName parent t ≠ "" := by
  intro h
  have hlist := congrArg String.toList h
  rw [toList_childName] at hlist
  exact List.append_ne_nil_of_right_ne_nil _ (List.cons_ne_nil _ _) hlist

end Sanitizer

variable {s : Sanitizer} {top : String} {names : Set String} {path path' : List String}

@[simp] theorem moduleName_nil : moduleName s top [] = top := rfl

@[simp] theorem moduleName_cons (t : String) :
    moduleName s top (t :: path) = moduleName s (s.childName top t) path := rfl

theorem moduleName_concat (t : String) :
    moduleName s top (path ++ [t]) = s.childName (moduleName s top path) t := by
  rw [moduleName, List.foldl_append]
  rfl

/-- The name of a module is the name of the outermost one and what the steps of the path add. -/
theorem toList_moduleName :
    (moduleName s top path).toList = top.toList ++ path.flatMap s.suffix := by
  induction path generalizing top with
  | nil => simp
  | cons t path ih =>
    rw [moduleName_cons, ih, s.toList_childName, List.flatMap_cons, List.append_assoc]

/-- The name of a module, put together from the name of the outermost one and the tokens of the
path. -/
theorem moduleName_eq_append_join (path : List String) :
    moduleName s top path = top ++ String.join (path.map fun t => "_" ++ s.sanitize t true) := by
  induction path generalizing top with
  | nil => simp
  | cons t path ih =>
    rw [moduleName_cons, ih]
    simp [Sanitizer.childName, Sanitizer.sanitize, String.append_assoc]

namespace Sanitizer

theorem Separates.suffix_inj (hs : s.Separates names) {t u : String} (ht : t ∈ names)
    (hu : u ∈ names) (h : s.suffix t = s.suffix u) : t = u :=
  hs.injOn ht hu (String.toList_injective (List.cons.inj h).2)

theorem Separates.length_suffix (hs : s.Separates names) {t u : String} (ht : t ∈ names)
    (hu : u ∈ names) : (s.suffix t).length = (s.suffix u).length := by
  rw [suffix, suffix, List.length_cons, List.length_cons, String.length_toList,
    String.length_toList, hs.length t ht u hu]

/-- What the steps of one path add to a name begins what those of another add exactly when the one
path begins the other. -/
theorem Separates.flatMap_suffix_prefix_iff (hs : s.Separates names)
    (hpath : ∀ t ∈ path, t ∈ names) (hpath' : ∀ t ∈ path', t ∈ names) :
    path.flatMap s.suffix <+: path'.flatMap s.suffix ↔ path <+: path' := by
  induction path generalizing path' with
  | nil => exact iff_of_true List.nil_prefix List.nil_prefix
  | cons t path ih =>
    cases path' with
    | nil =>
      -- A step adds at least the underscore.
      refine iff_of_false (fun h => ?_) (fun h => List.cons_ne_nil _ _ (List.prefix_nil.1 h))
      exact List.append_ne_nil_of_left_ne_nil (List.cons_ne_nil _ _) _ (List.prefix_nil.1 h)
    | cons u path' =>
      have ht := hpath t List.mem_cons_self
      have hu := hpath' u List.mem_cons_self
      have hrest := ih (fun v hv => hpath v (List.mem_cons_of_mem t hv))
        (fun v hv => hpath' v (List.mem_cons_of_mem u hv))
      rw [List.flatMap_cons, List.flatMap_cons, List.cons_prefix_cons, ← hrest]
      constructor
      · rintro ⟨rest, h⟩
        -- The first steps add equally much, so the names can be cut behind them.
        rw [List.append_assoc] at h
        obtain ⟨hhead, htail⟩ := List.append_inj h (hs.length_suffix ht hu)
        exact ⟨hs.suffix_inj ht hu hhead, rest, htail⟩
      · rintro ⟨rfl, h⟩
        exact (List.prefix_append_right_inj _).2 h

end Sanitizer

/-- The name of one module begins the name of another exactly when the one path begins the other. -/
theorem moduleName_prefix_iff (top : String) (hs : s.Separates names)
    (hpath : ∀ t ∈ path, t ∈ names) (hpath' : ∀ t ∈ path', t ∈ names) :
    (moduleName s top path).toList <+: (moduleName s top path').toList ↔ path <+: path' := by
  rw [toList_moduleName, toList_moduleName, List.prefix_append_right_inj,
    hs.flatMap_suffix_prefix_iff hpath hpath']

/-- The name of a module determines the path that leads to it. -/
theorem moduleName_injOn (hs : s.Separates names) :
    Set.InjOn (moduleName s top) {path | ∀ t ∈ path, t ∈ names} := by
  intro path hpath path' hpath' h
  have hbegins := (moduleName_prefix_iff top hs hpath hpath').1 (h ▸ List.prefix_rfl)
  have hbegins' := (moduleName_prefix_iff top hs hpath' hpath).1 (h ▸ List.prefix_rfl)
  exact hbegins.eq_of_length_le hbegins'.length_le

/-- Steps from one name along two paths, of whatever lengths, lead to the same name only if the
paths are the same, when the tokens of the type names all have one length and are different. An
underscore in the first name or in a token does no harm. -/
theorem foldl_childName_eq_iff {n : ℕ} (hlength : ∀ t ∈ names, (s.token t).length = n)
    (hinj : names.InjOn s.token) (hpath : ∀ t ∈ path, t ∈ names)
    (hpath' : ∀ t ∈ path', t ∈ names) :
    path.foldl s.childName top = path'.foldl s.childName top ↔ path = path' := by
  have hs : s.Separates names :=
    ⟨fun t ht u hu => (hlength t ht).trans (hlength u hu).symm, hinj⟩
  exact (moduleName_injOn hs).eq_iff hpath hpath'

/-- The module of the half adder below an outermost module that is named like that of an adder. -/
theorem foldl_childName_ne_half_adder :
    ["adder", "half-adder"].foldl Sanitizer.sha1.childName "top_v7a8f70" ≠
      ["half-adder"].foldl Sanitizer.sha1.childName "top_v7a8f70" := by
  have hs : Sanitizer.sha1.Separates {t | t ∈ ["adder", "half-adder"]} := by decide +kernel
  have hlength : ∀ t ∈ {t | t ∈ ["adder", "half-adder"]}, (Sanitizer.sha1.token t).length = 7 := by
    intro t ht
    rw [hs.length t ht "adder" (by decide)]
    decide +kernel
  exact mt (foldl_childName_eq_iff hlength hs.injOn (fun t ht => ht)
    (fun t ht => List.mem_cons_of_mem _ ht)).1 (by decide)

end BlockCircuit
