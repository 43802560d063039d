import EdgeVms.Cluster.ResourceServer
import Mathlib.Data.List.TakeWhile

/-! # What the resource's routes reach

Which requests stay below the root of the resource, whatever files there are.  A place
is the list of the components of its absolute path; a path lies below a directory when
its components go on from those of the directory.
-/

namespace EdgeVms.Verified.Containment

open Python Platform Path EdgeVms.Cluster.ResourceServer

variable {cwd root : String}

/-! ## Places -/

def Within (cwd dir path : String) : Prop := partsOf cwd dir <+: partsOf cwd path

def Below (cwd dir path : String) : Prop := ∃ rest, rest ≠ [] ∧ partsOf cwd path = partsOf cwd dir ++ rest

theorem Within.below {dir mid path : String} (within : Within cwd dir mid) (below : Below cwd mid path) :
    Below cwd dir path := by
  obtain ⟨first, same⟩ := within
  obtain ⟨rest, some_, ends⟩ := below
  exact ⟨first ++ rest, by simp [some_], by rw [ends, ← same, List.append_assoc]⟩

theorem below_names (base : String) {names : List String} (some_ : names ≠ []) (all : ∀ name ∈ names, Name name) :
    Below cwd base (join base names) := ⟨names, some_, partsOf_join cwd base all⟩

/-- Components that are kept: the others stand for the place itself. -/
def kept (part : String) : Bool := part ≠ "" && part ≠ "."

theorem down_plain {parts : List String} (noUp : ".." ∉ parts) (above : List String) :
    parts.foldl down above = above ++ parts.filter kept := by
  induction parts generalizing above with
  | nil => rw [List.foldl_nil, List.filter_nil, List.append_nil]
  | cons part rest ih =>
    rw [List.mem_cons, not_or] at noUp
    rw [List.foldl_cons, ih noUp.2, down]
    by_cases skipped : part = "" ∨ part = "."
    · have lost : kept part = false := by
        obtain rfl | rfl := skipped <;> rfl
      rw [if_pos skipped, List.filter_cons_of_neg (by simp [lost])]
    · have stays : kept part = true := by simpa [kept] using skipped
      rw [if_neg skipped, if_neg (Ne.symm noUp.1), List.filter_cons_of_pos stays, List.append_assoc]
      rfl

theorem partsOf_relative (dir : String) {path : String} (relative : path.toList.head? ≠ some '/')
    (noUp : ".." ∉ split '/' path) :
    partsOf cwd (joinTwo dir path) = partsOf cwd dir ++ (split '/' path).filter kept := by
  rw [partsOf_eq, partsOf_eq, if_congr (head_joinTwo dir relative) rfl rfl, down_joinTwo dir relative, down_plain noUp]

theorem joinTwo_absolute (dir : String) {path : String} (absolute : path.toList.head? = some '/') :
    joinTwo dir path = path := if_pos absolute

theorem infix_join {sep : Char} {parts : List String} {part : String} (member : part ∈ parts) :
    part.toList <:+: (Python.join sep parts).toList := by
  induction parts with
  | nil => cases member
  | cons first rest ih =>
    by_cases more : rest = []
    · subst more
      rw [List.mem_singleton.mp member]
      simp [Python.join]
    · rw [toList_join_cons more]
      obtain rfl | later := List.mem_cons.mp member
      · exact (List.prefix_append _ _).isInfix
      · exact (ih later).trans ((List.suffix_cons _ _).trans (List.suffix_append _ _)).isInfix

/-- A piece of a path stands in its text. -/
theorem infix_of_piece {text piece : String} (member : piece ∈ split '/' text) : piece.toList <:+: text.toList := by
  have whole : piece.toList <:+: (Python.join '/' (split '/' text)).toList := infix_join member
  rwa [join_split] at whole

theorem noUp_of_clear {rel : String} (clear : hasUp rel = false) : ".." ∉ split '/' rel := fun member =>
  absurd (infix_of_piece member) (of_decide_eq_false clear)

/-! ## Files of events -/

/-- The text up to its last slash, and its last component. -/
theorem last_component (path : String) : ∃ name : String, '/' ∉ name.toList ∧
    (path = name ∨ ∃ front, path = front ++ "/" ++ name) := by
  by_cases slash : '/' ∈ path.toList.reverse
  · obtain ⟨back, front, same, whole⟩ := List.eq_append_cons_of_mem slash
    refine ⟨String.ofList back.reverse, by simpa using whole, .inr ⟨String.ofList front.reverse, ?_⟩⟩
    apply String.toList_injective
    have straight := congrArg List.reverse same
    rw [List.reverse_reverse, List.reverse_append, List.reverse_cons] at straight
    rw [straight]
    simp
  · exact ⟨path, by simpa using slash, .inl rfl⟩

theorem split_alone {name : String} (whole : '/' ∉ name.toList) : split '/' name = [name] := by
  rw [split, List.splitOn_eq_singleton whole, List.map_singleton, String.ofList_toList]

theorem Name.of_long {name : String} (whole : '/' ∉ name.toList) (long : 2 < name.toList.length) : Name name where
  component := ⟨fun empty => absurd (empty ▸ long) (by decide), whole⟩
  dot := fun dot => absurd (dot ▸ long) (by decide)
  up := fun up => absurd (up ▸ long) (by decide)

/-- The last component of a path stands alone, whatever it is. -/
theorem partsOf_last (cwd front : String) : ∃ above, ∀ name, Name name →
    partsOf cwd (front ++ "/" ++ name) = above ++ [name] := by
  refine ⟨(split '/' front).foldl down
    (if (front ++ "/").toList.head? = some '/' then [] else (split '/' cwd).foldl down []), fun name named => ?_⟩
  have head : (front ++ "/" ++ name).toList.head? = (front ++ "/").toList.head? := by
    rw [String.toList_append, List.head?_append_of_ne_nil]
    simp
  rw [partsOf_eq, head, split_slash, split_alone named.component.whole, List.foldl_append, List.foldl_cons,
    List.foldl_nil, named.down]

/-- A path of events ends in a name. -/
theorem events_name {path : String} (events : isEvents path = true) : ∃ name, Name name ∧ Name (name ++ ".tmp") ∧
    (path = name ∨ ∃ front, path = front ++ "/" ++ name) := by
  obtain ⟨name, whole, parts⟩ := last_component path
  have ends : ".events.jsonl".toList <:+ name.toList := by
    have suffix := List.isSuffixOf_iff_suffix.mp events
    obtain rfl | ⟨front, rfl⟩ := parts
    · exact suffix
    · have chars : (front ++ "/" ++ name).toList = front.toList ++ '/' :: name.toList := by simp
      rw [chars] at suffix
      have plain : '/' ∉ ".events.jsonl".toList := by decide
      obtain shorter | longer := List.suffix_or_suffix_of_suffix suffix (List.suffix_append _ _)
      · obtain same | inside := List.suffix_cons_iff.mp shorter
        · exact absurd (same ▸ List.mem_cons_self) plain
        · exact inside
      · exact absurd (longer.subset List.mem_cons_self) plain
  have long : 2 < name.toList.length := Nat.lt_of_lt_of_le (by decide) ends.length_le
  have whole' : '/' ∉ (name ++ ".tmp").toList := by
    rw [String.toList_append, List.mem_append, not_or]
    exact ⟨whole, by decide⟩
  have long' : 2 < (name ++ ".tmp").toList.length := by
    rw [String.toList_append, List.length_append]
    omega
  exact ⟨name, Name.of_long whole long, Name.of_long whole' long', parts⟩

/-- What is written beside a path of events ends in another name. -/
theorem partsOf_events (cwd : String) {path : String} (events : isEvents path = true) : ∃ above name,
    partsOf cwd path = above ++ [name] ∧ partsOf cwd (path ++ ".tmp") = above ++ [name ++ ".tmp"] := by
  obtain ⟨name, named, named', parts⟩ := events_name events
  obtain rfl | ⟨front, rfl⟩ := parts
  · have alone {name : String} (named : Name name) :
        partsOf cwd name = (split '/' cwd).foldl down [] ++ [name] := by
      rw [partsOf_eq, if_neg named.relative, split_alone named.component.whole, List.foldl_cons, List.foldl_nil,
        named.down]
    exact ⟨_, path, alone named, alone named'⟩
  · obtain ⟨above, last⟩ := partsOf_last cwd front
    refine ⟨above, name, last name named, ?_⟩
    rw [String.append_assoc]
    exact last _ named'

/-- Below a directory or not, both are it together. -/
theorem below_temporary {dir path : String} (events : isEvents path = true) :
    Below cwd dir (path ++ ".tmp") ↔ Below cwd dir path := by
  obtain ⟨above, name, place, beside⟩ := partsOf_events cwd events
  have same (last : String) : (∃ rest, rest ≠ [] ∧ above ++ [last] = partsOf cwd dir ++ rest) ↔
      partsOf cwd dir <+: above := by
    constructor
    · rintro ⟨rest, some_, whole⟩
      obtain ⟨front, final, rfl⟩ := (List.eq_nil_or_concat' rest).resolve_left some_
      rw [← List.append_assoc] at whole
      exact ⟨front, (List.append_inj_left' whole rfl).symm⟩
    · rintro ⟨front, rfl⟩
      exact ⟨front ++ [last], by simp, List.append_assoc _ _ _⟩
  rw [Below, Below, place, beside, same, same]

theorem isEvents_joinTwo {dir path : String} (events : isEvents path = true) : isEvents (joinTwo dir path) = true := by
  have suffix := List.isSuffixOf_iff_suffix.mp events
  refine List.isSuffixOf_iff_suffix.mpr ?_
  rw [joinTwo]
  split_ifs
  · exact suffix
  · rw [String.toList_append]
    exact suffix.trans (List.suffix_append _ _)
  · rw [String.toList_append]
    exact suffix.trans (List.suffix_append _ _)

/-- A relative path without a way up, to a file of events, lies below what it is joined to. -/
theorem below_events (dir : String) {path : String} (events : isEvents path = true)
    (relative : path.toList.head? ≠ some '/') (noUp : ".." ∉ split '/' path) : Below cwd dir (joinTwo dir path) := by
  obtain ⟨name, named, -, parts⟩ := events_name events
  have piece : name ∈ split '/' path := by
    obtain rfl | ⟨front, rfl⟩ := parts
    · rw [split_alone named.component.whole]
      exact List.mem_singleton_self _
    · rw [split_slash, split_alone named.component.whole]
      exact List.mem_append_right _ (List.mem_singleton_self _)
  have stays : kept name = true := by simp [kept, named.component.nonempty, named.dot]
  exact ⟨_, List.ne_nil_of_mem (List.mem_filter.mpr ⟨piece, stays⟩), partsOf_relative dir relative noUp⟩

/-! ## What a request names -/

inductive Target where
  | nothing
  /-- The buckets of a directory; their paths go on from `start`. -/
  | tree (base start : String) (legible : Option (List UInt8) → Bool)
  | manifest (cam : Int)
  | file (rel : String) (ranged : Bool)
  | copy (server path : String)

def extraTarget (path : String) : Target :=
  match after? "/manifest/" path with
  | some _ =>
    match (Text.plain (Cluster.Timeline.lastPart path)).toInt with
    | .ok cam => .manifest cam
    | .error _ => .nothing
  | none =>
    match after? "/segment/" path with
    | some rel => if hasUp rel then .nothing else .file rel true
    | none => .nothing

def getTarget (root : String) (plugged : Bool) (path : String) : Target :=
  match after? "/buckets/" path with
  | some _ =>
    match subUnit path with
    | some (sub, unit) => .tree (unitDir root sub unit) root isRead
    | none => .nothing
  | none =>
    match after? "/mirrored/" path with
    | some server => .tree (mirrorOf root server) (mirrorOf root server) isCounted
    | none =>
      match after? "/events/" path with
      | some rel => if hasUp rel || !isEvents rel then .nothing else .file rel false
      | none => if plugged then extraTarget path else .nothing

def putTarget (path : String) : Target :=
  match after? "/mirror/" path with
  | none => .nothing
  | some rel =>
    if hasUp rel || (partition rel).1 = "" || !isEvents (partition rel).2 then .nothing
    else .copy (partition rel).1 (partition rel).2

def target (root : String) (plugged : Bool) (method : Method) (path : String) : Target :=
  match method with
  | .get => getTarget root plugged path
  | .put => putTarget path
  | .other => .nothing

/-- The files of a target. -/
def accesses (machine : Machine cwd root) (headers : Headers) : Target → List Access
  | .nothing => []
  | .tree base start legible => bucketReads machine start legible (machine.walk base)
  | .manifest cam => [.read (joinTwo (unitDir root "vms" (toString cam)) "manifest.jsonl")]
  | .file rel ranged =>
    if (machine.content (joinTwo root rel)).isNone || (ranged && !isRange headers.range) then []
    else [.read (joinTwo root rel)]
  | .copy server path =>
    if isLength headers.contentLength then
      [.write (Path.join root [".mirror", server, path] ++ ".tmp"), .write (Path.join root [".mirror", server, path])]
    else []

theorem extra_eq (machine : Machine cwd root) (headers : Headers) (path : String) :
    extra machine path headers = accesses machine headers (extraTarget path) := by
  unfold extra extraTarget
  cases after? "/manifest/" path with
  | some _ => cases (Text.plain (Cluster.Timeline.lastPart path)).toInt <;> rfl
  | none =>
    cases after? "/segment/" path with
    | none => rfl
    | some rel => cases up : hasUp rel <;> simp [up, accesses]

theorem doGet_eq (machine : Machine cwd root) (headers : Headers) (plugged : Bool) (path : String) :
    doGet machine plugged path headers = accesses machine headers (getTarget root plugged path) := by
  unfold doGet getTarget
  cases after? "/buckets/" path with
  | some _ => cases subUnit path <;> rfl
  | none =>
    cases after? "/mirrored/" path with
    | some server => rfl
    | none =>
      cases after? "/events/" path with
      | some rel =>
        by_cases refused : (hasUp rel || !isEvents rel) = true
        · simp [refused, accesses]
        · simp only [Bool.not_eq_true] at refused
          simp [refused, accesses]
      | none =>
        cases plugged with
        | true => exact extra_eq machine headers path
        | false => rfl

theorem doPut_eq (machine : Machine cwd root) (headers : Headers) (path : String) :
    doPut root path headers = accesses machine headers (putTarget path) := by
  unfold doPut putTarget
  cases after? "/mirror/" path with
  | none => rfl
  | some rel =>
    by_cases refused : (hasUp rel || (partition rel).1 = "" || !isEvents (partition rel).2) = true
    · simp only [refused, if_true, accesses]
    · simp only [refused, accesses]
      rfl

theorem handle_eq (machine : Machine cwd root) (headers : Headers) (plugged : Bool) (method : Method) (path : String) :
    handle machine plugged method path headers = accesses machine headers (target root plugged method path) := by
  cases method with
  | get => exact doGet_eq machine headers plugged path
  | put => exact doPut_eq machine headers path
  | other => rfl

/-! ## Buckets below a directory -/

/-- The path is taken for one of a bucket. -/
def IsBucket (cwd path start : String) : Prop := ∃ found, parseBucketAt cwd path start = .ok (some found)

theorem mem_bucketReads {machine : Machine cwd root} {start : String} {legible : Option (List UInt8) → Bool}
    {paths : List String} {access : Access} (member : access ∈ bucketReads machine start legible paths) :
    ∃ path ∈ paths, access = .read path ∧ IsBucket cwd path start := by
  induction paths with
  | nil => cases member
  | cons path rest ih =>
    have later (member : access ∈ bucketReads machine start legible rest) :
        ∃ path' ∈ path :: rest, access = .read path' ∧ IsBucket cwd path' start := by
      obtain ⟨path', inside, facts⟩ := ih member
      exact ⟨path', .tail _ inside, facts⟩
    rw [bucketReads] at member
    cases parsed : parseBucketAt cwd path start with
    | error error =>
      rw [parsed] at member
      cases member
    | ok found =>
      rw [parsed] at member
      cases found with
      | none => exact later member
      | some found =>
        obtain rfl | inside := List.mem_cons.mp member
        · exact ⟨path, List.mem_cons_self, rfl, found, parsed⟩
        · split at inside
          · exact later inside
          · cases inside

theorem bucketReads_one (machine : Machine cwd root) (start : String) (legible : Option (List UInt8) → Bool)
    {path : String} (bucket : IsBucket cwd path start) : Access.read path ∈ bucketReads machine start legible [path] := by
  obtain ⟨found, parsed⟩ := bucket
  rw [bucketReads, parsed]
  exact List.mem_cons_self

/-! ## A machine with one file -/

def oneFile (cwd root path : String) (walk : String → List String)
    (below : ∀ base, ∀ path ∈ walk base,
      ∃ names, names ≠ [] ∧ (∀ name ∈ names, Name name) ∧ path = Path.join base names) :
    Machine cwd root where
  content other := if other = path ∧ partsOf cwd other ≠ partsOf cwd root then some [] else none
  walk := walk
  below := below
  directory _ same := if_neg fun both => both.2 same

theorem found_below {base : String} {names : List String} (some_ : names ≠ []) (all : ∀ name ∈ names, Name name) :
    ∀ other, ∀ path ∈ if other = base then [Path.join base names] else [],
      ∃ names, names ≠ [] ∧ (∀ name ∈ names, Name name) ∧ path = Path.join other names := by
  intro other path inside
  split at inside
  next same =>
    rw [List.mem_singleton.mp inside, same]
    exact ⟨names, some_, all, rfl⟩
  next => cases inside

/-- A machine that finds one file below a directory. -/
def found (cwd root base : String) (names : List String) (some_ : names ≠ []) (all : ∀ name ∈ names, Name name) :
    Machine cwd root :=
  oneFile cwd root (Path.join base names) (fun other => if other = base then [Path.join base names] else [])
    (found_below some_ all)

/-! ## Containment -/

variable {machine : Machine cwd root} {plugged : Bool} {method : Method} {path : String} {headers : Headers}

/-- The files of a request lie below the root, and what is put lies below the mirror of its server. -/
structure Contained (machine : Machine cwd root) (plugged : Bool) (method : Method) (path : String)
    (headers : Headers) : Prop where
  rooted : ∀ access ∈ handle machine plugged method path headers, Below cwd root access.path
  mirrored : ∀ rel, method = .put → after? "/mirror/" path = some rel →
    ∀ access ∈ handle machine plugged method path headers, Below cwd (mirrorOf root (partition rel).1) access.path

/-- Nothing outside can be reached: an absolute path names a place below, and so does whatever is taken for a
bucket in the directory that is named. -/
def Safe (cwd root : String) : Target → Prop
  | .nothing | .manifest _ => True
  | .tree base start _ => ∀ names, names ≠ [] → (∀ name ∈ names, Name name) →
      IsBucket cwd (Path.join base names) start → Below cwd root (Path.join base names)
  | .file rel _ => rel.toList.head? = some '/' → partsOf cwd rel = partsOf cwd root ∨ Below cwd root rel
  | .copy server path => path.toList.head? = some '/' → Below cwd (mirrorOf root server) path

/-- A directory in the root is safe. -/
theorem safe_of_within {base : String} (within : Within cwd root base) (start : String)
    (legible : Option (List UInt8) → Bool) : Safe cwd root (.tree base start legible) :=
  fun _ some_ all _ => within.below (below_names base some_ all)

/-! ## What is refused -/

theorem hasUp_part {rel part : String} (clear : hasUp rel = false) (inside : part.toList <:+: rel.toList) :
    hasUp part = false :=
  decide_eq_false fun up => of_decide_eq_false clear (up.trans inside)

theorem extraTarget_clear {rel : String} {ranged : Bool} (named : extraTarget path = .file rel ranged) :
    hasUp rel = false := by
  unfold extraTarget at named
  split at named
  · split at named <;> cases named
  · split at named
    · split at named
      next up => cases named
      next clear =>
        cases named
        exact Bool.eq_false_iff.mpr clear
    · cases named

theorem getTarget_clear {rel : String} {ranged : Bool} (named : getTarget root plugged path = .file rel ranged) :
    hasUp rel = false := by
  unfold getTarget at named
  split at named
  · split at named <;> cases named
  · split at named
    · cases named
    · split at named
      · split at named
        next => cases named
        next clear =>
          cases named
          rw [Bool.or_eq_true, not_or] at clear
          exact Bool.eq_false_iff.mpr clear.1
      · split at named
        · exact extraTarget_clear named
        · cases named

theorem getTarget_ne_copy (server copied : String) : getTarget root plugged path ≠ .copy server copied := by
  intro named
  unfold getTarget extraTarget at named
  split at named
  · split at named <;> cases named
  · split at named
    · cases named
    · split at named
      · split at named <;> cases named
      · split at named
        · split at named
          · split at named <;> cases named
          · split at named
            · split at named <;> cases named
            · cases named
        · cases named

theorem putTarget_clear {server copied : String} (named : putTarget path = .copy server copied) :
    ∃ rel, after? "/mirror/" path = some rel ∧ partition rel = (server, copied) ∧ hasUp rel = false ∧
      isEvents copied = true := by
  unfold putTarget at named
  split at named
  next => cases named
  next rel there =>
    split at named
    next => cases named
    next clear =>
      cases named
      rw [Bool.or_eq_true, Bool.or_eq_true, not_or, not_or] at clear
      exact ⟨rel, there, rfl, Bool.eq_false_iff.mpr clear.1.1, by simpa using clear.2⟩

theorem within_mirror {server : String} (relative : server.toList.head? ≠ some '/') (noUp : ".." ∉ split '/' server) :
    Within cwd root (mirrorOf root server) := by
  have mirror : Name ".mirror" := Name.of_long (by decide) (by decide)
  refine ⟨[".mirror"] ++ (split '/' server).filter kept, ?_⟩
  rw [mirrorOf, join_cons, join_cons, join_nil, partsOf_relative _ relative noUp, partsOf_joinTwo _ _ mirror,
    List.append_assoc]

/-- The server's name is one component, without a way up. -/
theorem server_plain {rel : String} (clear : hasUp rel = false) :
    (partition rel).1.toList.head? ≠ some '/' ∧ ".." ∉ split '/' (partition rel).1 := by
  have chars : (partition rel).1.toList = rel.toList.takeWhile (· ≠ '/') := String.toList_ofList
  have whole : '/' ∉ (partition rel).1.toList := by
    rw [chars]
    intro inside
    simpa using List.mem_takeWhile_imp inside
  refine ⟨fun absolute => whole (List.mem_of_mem_head? absolute), noUp_of_clear (hasUp_part clear ?_)⟩
  rw [chars]
  exact (List.takeWhile_prefix _).isInfix

theorem copied_clear {rel : String} (clear : hasUp rel = false) : ".." ∉ split '/' (partition rel).2 := by
  refine noUp_of_clear (hasUp_part clear ?_)
  have chars : (partition rel).2.toList = (rel.toList.dropWhile (· ≠ '/')).drop 1 := String.toList_ofList
  rw [chars]
  exact ((List.drop_suffix 1 _).trans (List.dropWhile_suffix _)).isInfix

theorem name_toString (n : Int) : Name (toString n) where
  component := ⟨(atomic_toString n).nonempty, not_mem_toString (by decide) (by decide) n⟩
  dot := fun dot => not_mem_toString (c := '.') (by decide) (by decide) n (by simp [dot])
  up := fun up => not_mem_toString (c := '.') (by decide) (by decide) n (by simp [up])

/-! ## The result -/

theorem file_below {rel : String} (clear : hasUp rel = false)
    (safe : rel.toList.head? = some '/' → partsOf cwd rel = partsOf cwd root ∨ Below cwd root rel)
    (machine : Machine cwd root) (there : (machine.content (joinTwo root rel)).isSome) :
    Below cwd root (joinTwo root rel) := by
  have apart : partsOf cwd (joinTwo root rel) ≠ partsOf cwd root := fun same => by
    rw [machine.directory _ same] at there
    cases there
  by_cases absolute : rel.toList.head? = some '/'
  · rw [joinTwo_absolute root absolute] at apart ⊢
    exact (safe absolute).resolve_left apart
  · have place : partsOf cwd (joinTwo root rel) = partsOf cwd root ++ (split '/' rel).filter kept :=
      partsOf_relative root absolute (noUp_of_clear clear)
    refine ⟨_, fun none_ => apart ?_, place⟩
    rw [place, none_, List.append_nil]

theorem copy_below {rel : String} (clear : hasUp rel = false) (events : isEvents (partition rel).2 = true)
    {dir : String} (safe : (partition rel).2.toList.head? = some '/' → Below cwd dir (partition rel).2) :
    Below cwd dir (joinTwo dir (partition rel).2) := by
  by_cases absolute : (partition rel).2.toList.head? = some '/'
  · rw [joinTwo_absolute _ absolute]
    exact safe absolute
  · exact below_events _ events absolute (copied_clear clear)

/-- What is read for a safe target lies below the root. -/
theorem get_below (safe : Safe cwd root (getTarget root plugged path)) (machine : Machine cwd root)
    (headers : Headers) : ∀ access ∈ accesses machine headers (getTarget root plugged path), Below cwd root access.path := by
  intro access member
  cases named : getTarget root plugged path with
  | nothing =>
    rw [named] at member
    cases member
  | tree base start legible =>
    rw [named] at member safe
    obtain ⟨path, walked, rfl, bucket⟩ := mem_bucketReads member
    obtain ⟨names, some_, all, rfl⟩ := machine.below base path walked
    exact safe names some_ all bucket
  | manifest cam =>
    rw [named] at member
    rw [List.mem_singleton.mp member]
    have names : ∀ name ∈ ["vms", toString cam, "manifest.jsonl"], Name name := by
      simp only [List.mem_cons, List.not_mem_nil, or_false]
      rintro name (rfl | rfl | rfl)
      · exact Name.of_long (by decide) (by decide)
      · exact name_toString cam
      · exact Name.of_long (by decide) (by decide)
    have place : joinTwo (unitDir root "vms" (toString cam)) "manifest.jsonl" =
        Path.join root ["vms", toString cam, "manifest.jsonl"] := by
      rw [unitDir, join_cons, join_cons, join_nil, join_cons, join_cons, join_cons, join_nil]
    have below : Below cwd root (Path.join root ["vms", toString cam, "manifest.jsonl"]) :=
      below_names root (List.cons_ne_nil _ _) names
    rw [← place] at below
    exact below
  | file rel ranged =>
    rw [named, accesses] at member
    rw [named] at safe
    split at member
    next => cases member
    next there =>
      rw [List.mem_singleton.mp member]
      rw [Bool.or_eq_true, not_or, Option.isNone_iff_eq_none, ← ne_eq, ← Option.isSome_iff_ne_none] at there
      exact file_below (getTarget_clear named) safe machine there.1
  | copy server copied => exact absurd named (getTarget_ne_copy server copied)

theorem join_mirror (root server copied : String) :
    Path.join root [".mirror", server, copied] = joinTwo (mirrorOf root server) copied := by
  rw [mirrorOf, join_cons, join_cons, join_cons, join_nil, join_cons, join_cons, join_nil]

theorem put_below (safe : Safe cwd root (putTarget path)) (machine : Machine cwd root) (headers : Headers)
    {access : Access} (member : access ∈ accesses machine headers (putTarget path)) :
    ∃ rel, after? "/mirror/" path = some rel ∧ hasUp rel = false ∧
      Below cwd (mirrorOf root (partition rel).1) access.path := by
  unfold putTarget at safe member
  split at member
  next => cases member
  next rel there =>
    split at member
    next => cases member
    next clear =>
      rw [there] at safe
      simp only [clear] at safe
      rw [Bool.or_eq_true, Bool.or_eq_true, not_or, not_or] at clear
      have up : hasUp rel = false := Bool.eq_false_iff.mpr clear.1.1
      have events : isEvents (partition rel).2 = true := by simpa using clear.2
      have below : Below cwd (mirrorOf root (partition rel).1) (joinTwo (mirrorOf root (partition rel).1)
          (partition rel).2) := copy_below up events safe
      have beside := (below_temporary (isEvents_joinTwo events)).mpr below
      refine ⟨rel, there, up, ?_⟩
      rw [accesses, join_mirror] at member
      split at member
      next =>
        simp only [List.mem_cons, List.not_mem_nil, or_false] at member
        obtain rfl | rfl := member
        · exact beside
        · exact below
      next => cases member

/-- What contains every machine's files is safe: one file is enough to show where a request leads. -/
theorem safe_of_contained (contained : ∀ (machine : Machine cwd root) (headers : Headers),
    Contained machine plugged method path headers) : Safe cwd root (target root plugged method path) := by
  cases named : target root plugged method path with
  | nothing | manifest => trivial
  | tree base start legible =>
    intro names some_ all bucket
    have rooted := (contained (found cwd root base names some_ all) ⟨none, none⟩).rooted (.read (Path.join base names))
    have walked : (found cwd root base names some_ all).walk base = [Path.join base names] := if_pos rfl
    rw [handle_eq, named, accesses, walked] at rooted
    exact rooted (bucketReads_one _ start legible bucket)
  | file rel ranged =>
    intro absolute
    by_cases same : partsOf cwd rel = partsOf cwd root
    · exact .inl same
    have rooted := (contained (oneFile cwd root rel (fun _ => []) nofun) ⟨none, none⟩).rooted (.read rel)
    have there : (oneFile cwd root rel (fun _ => []) nofun).content rel = some [] := if_pos ⟨rfl, same⟩
    rw [handle_eq, named, accesses, joinTwo_absolute root absolute, there] at rooted
    refine .inr (rooted ?_)
    cases ranged <;> exact List.mem_singleton_self _
  | copy server copied =>
    intro absolute
    cases method with
    | get => exact absurd named (getTarget_ne_copy server copied)
    | other => cases named
    | put =>
      obtain ⟨rel, there, parts, -, -⟩ := putTarget_clear named
      have mirrored := (contained (oneFile cwd root "" (fun _ => []) nofun) ⟨none, none⟩).mirrored rel rfl there
        (.write (Path.join root [".mirror", server, copied]))
      rw [handle_eq, named, parts] at mirrored
      have dest : Path.join root [".mirror", server, copied] = copied :=
        (join_mirror root server copied).trans (joinTwo_absolute _ absolute)
      have below := mirrored (.tail _ (List.mem_singleton_self _))
      rw [dest] at below
      exact below

theorem contained_iff_safe (cwd root : String) (plugged : Bool) (method : Method) (path : String) :
    (∀ (machine : Machine cwd root) (headers : Headers), Contained machine plugged method path headers) ↔
      Safe cwd root (target root plugged method path) := by
  constructor
  · exact safe_of_contained
  · intro safe machine headers
    cases method with
    | get =>
      refine ⟨?_, nofun⟩
      rw [handle_eq]
      exact get_below safe machine headers
    | put =>
      have below {access : Access} (member : access ∈ handle machine plugged .put path headers) :=
        put_below safe machine headers (handle_eq machine headers plugged .put path ▸ member)
      constructor
      · intro access member
        obtain ⟨rel, -, up, copied⟩ := below member
        exact (within_mirror (server_plain up).1 (server_plain up).2).below copied
      · intro rel _ there access member
        obtain ⟨rel', there', -, copied⟩ := below member
        cases there.symm.trans there'
        exact copied
    | other => exact ⟨nofun, nofun⟩

/-! ## A segment of another place -/

theorem target_passwd : target "/srv/archive" true .get "/segment//etc/passwd" = .file "/etc/passwd" true := by
  rfl

theorem passwd_outside : ¬Safe "/" "/srv/archive" (target "/srv/archive" true .get "/segment//etc/passwd") := by
  rw [target_passwd]
  intro safe
  have root : partsOf "/" "/srv/archive" = ["srv", "archive"] := by decide +kernel
  have outside : partsOf "/" "/etc/passwd" = ["etc", "passwd"] := by decide +kernel
  have absolute : "/etc/passwd".toList.head? = some '/' := by decide
  obtain same | ⟨rest, -, below⟩ := safe absolute
  · rw [root, outside] at same
    simp at same
  · rw [root, outside] at below
    simp at below

theorem passwd_is_served : ¬ ∀ (cwd root : String) (plugged : Bool) (method : Method) (path : String)
    (machine : Machine cwd root) (headers : Headers), Contained machine plugged method path headers := by
  intro claim
  refine passwd_outside (safe_of_contained ?_)
  exact claim "/" "/srv/archive" true .get "/segment//etc/passwd"

end EdgeVms.Verified.Containment
