import EdgeVms.Python.Path

/-! # Relative paths

`os.path.relpath` compares the components of two absolute paths.  A name that is
joined to a path is one component more, however the path is spelled.
-/

namespace EdgeVms.Python.Path

/-- One component more, as `os.path.normpath` takes it. -/
def down (parts : List String) (part : String) : List String :=
  if part = "" ∨ part = "." then parts
  else if part = ".." then parts.dropLast
  else parts ++ [part]

/-- The components of `os.path.abspath(path)`. -/
def partsOf (cwd path : String) : List String := (split '/' (joinTwo cwd path)).foldl down []

def commonPrefix : List String → List String → Nat
  | a :: as, b :: bs => if a = b then commonPrefix as bs + 1 else 0
  | _, _ => 0

/-- The components of `os.path.relpath(path, start)`. -/
def relparts (cwd path start : String) : Except Error (List String) :=
  if path = "" then .error .valueError
  else
    let shared := commonPrefix (partsOf cwd start) (partsOf cwd path)
    let rel := List.replicate ((partsOf cwd start).length - shared) ".." ++ (partsOf cwd path).drop shared
    .ok (if rel = [] then ["."] else rel)

example : relparts "/" "/a/./b//c" "/a/b/" = .ok ["c"] := by decide +kernel

example : relparts "/home" "../data" "x" = .ok ["..", "..", "data"] := by decide +kernel

/-- A name of a file or a directory. -/
structure Name (part : String) : Prop where
  component : Component part
  dot : part ≠ "."
  up : part ≠ ".."

theorem Name.down {part : String} (name : Name part) (parts : List String) : down parts part = parts ++ [part] := by
  rw [Path.down, if_neg (by simp [name.component.nonempty, name.dot]), if_neg name.up]

theorem split_slash (front back : String) : split '/' (front ++ "/" ++ back) = split '/' front ++ split '/' back := by
  have chars : (front ++ "/" ++ back).toList = front.toList ++ '/' :: back.toList := by
    have slash : "/".toList = ['/'] := by decide
    rw [String.toList_append, String.toList_append, slash, List.append_assoc]
    rfl
  rw [split, chars, List.splitOn_append_cons_self, List.map_append]
  rfl

/-- What is joined to a path goes on from its components. -/
theorem down_joinTwo (path : String) {part : String} (relative : part.toList.head? ≠ some '/') (parts : List String) :
    (split '/' (joinTwo path part)).foldl down parts =
      (split '/' part).foldl down ((split '/' path).foldl down parts) := by
  have nothing : split '/' "" = [""] := by decide
  have skipped (parts : List String) : down parts "" = parts := if_pos (.inl rfl)
  rw [joinTwo, if_neg relative]
  by_cases empty : path = ""
  · subst empty
    rw [if_pos (by decide), nothing, List.foldl_cons, List.foldl_nil, skipped, String.empty_append]
  · by_cases slash : path.toList.getLast? = some '/'
    · -- the empty piece behind the last slash counts for nothing
      obtain ⟨front, rfl⟩ : ∃ front, path = front ++ "/" ++ "" := by
        refine ⟨String.ofList path.toList.dropLast, String.toList_injective ?_⟩
        have last : "/".toList = ['/'] := by decide
        rw [String.append_empty, String.toList_append, String.toList_ofList, last]
        exact (List.dropLast_append_getLast? _ slash).symm
      rw [if_pos (by simp), split_slash, String.append_empty, split_slash, nothing, List.foldl_append,
        List.foldl_append, List.foldl_cons, List.foldl_nil, skipped]
    · rw [if_neg (by simp [empty, slash]), split_slash, List.foldl_append]

theorem partsOf_eq (cwd path : String) : partsOf cwd path = (split '/' path).foldl down
    (if path.toList.head? = some '/' then [] else (split '/' cwd).foldl down []) := by
  rw [partsOf]
  by_cases absolute : path.toList.head? = some '/'
  · rw [joinTwo, if_pos absolute, if_pos absolute]
  · rw [down_joinTwo cwd absolute, if_neg absolute]

theorem head_joinTwo (path : String) {part : String} (relative : part.toList.head? ≠ some '/') :
    (joinTwo path part).toList.head? = some '/' ↔ path.toList.head? = some '/' := by
  rw [joinTwo, if_neg relative]
  by_cases empty : path = ""
  · subst empty
    simpa using relative
  · have some_ : path.toList ≠ [] := fun nil => empty (by simpa using nil)
    split
    · rw [String.toList_append, List.head?_append_of_ne_nil _ some_]
    · rw [String.append_assoc, String.toList_append, List.head?_append_of_ne_nil _ some_]

theorem Name.relative {part : String} (name : Name part) : part.toList.head? ≠ some '/' := fun absolute =>
  name.component.whole (List.mem_of_mem_head? absolute)

theorem partsOf_joinTwo (cwd path : String) {part : String} (name : Name part) :
    partsOf cwd (joinTwo path part) = partsOf cwd path ++ [part] := by
  have alone : split '/' part = [part] := by
    rw [split, List.splitOn_eq_singleton name.component.whole]
    simp
  rw [partsOf_eq, partsOf_eq, if_congr (head_joinTwo path name.relative) rfl rfl, down_joinTwo path name.relative,
    alone,
    List.foldl_cons, List.foldl_nil, name.down]

theorem partsOf_join (cwd path : String) {names : List String} (all : ∀ part ∈ names, Name part) :
    partsOf cwd (join path names) = partsOf cwd path ++ names := by
  induction names generalizing path with
  | nil => rw [join_nil, List.append_nil]
  | cons part rest ih =>
    obtain ⟨first, others⟩ := List.forall_mem_cons.mp all
    rw [join_cons, ih _ others, partsOf_joinTwo _ _ first, List.append_assoc]
    rfl

theorem commonPrefix_append (front back : List String) : commonPrefix front (front ++ back) = front.length := by
  induction front with
  | nil => cases back <;> rfl
  | cons part rest ih => rw [List.cons_append, commonPrefix, if_pos rfl, ih, List.length_cons]

/-- The path lies under `start`, `rest` below it. -/
theorem relparts_below {cwd path start : String} (some_ : path ≠ "") {rest : List String}
    (below : partsOf cwd path = partsOf cwd start ++ rest) :
    relparts cwd path start = .ok (if rest = [] then ["."] else rest) := by
  rw [relparts, if_neg some_, below, commonPrefix_append]
  dsimp only
  rw [Nat.sub_self, List.drop_left]
  rfl

theorem join_ne_empty {names : List String} {path : String} (all : ∀ part ∈ names, Name part) (more : names ≠ []) :
    join path names ≠ "" := by
  obtain rfl | ⟨front, last, rfl⟩ := List.eq_nil_or_concat' names
  · exact absurd rfl more
  · have name := all last (by simp)
    have whole : join path (front ++ [last]) = joinTwo (join path front) last := by
      rw [join, List.foldl_append]
      rfl
    rw [whole]
    intro empty
    obtain ⟨before, ends, -⟩ := joinTwo_component (join path front) name.component
    rw [empty] at ends
    have nil := (List.append_eq_nil_iff.mp ends.symm).2
    exact name.component.nonempty (by simpa using nil)

/-- Names that are joined to a path lie below it. -/
theorem relparts_join (cwd path : String) {names : List String} (all : ∀ part ∈ names, Name part) (more : names ≠ []) :
    relparts cwd (join path names) path = .ok names := by
  rw [relparts_below (join_ne_empty all more) (partsOf_join cwd path all), if_neg more]

end EdgeVms.Python.Path
