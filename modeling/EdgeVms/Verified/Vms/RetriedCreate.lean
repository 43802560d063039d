import EdgeVms.Vms.Console
import EdgeVms.Verified.Vms.CameraEdits
import EdgeVms.Verified.Vms.Reachability
import Mathlib.Data.List.Perm.Subperm

/-! # The retried create

Requests to a console, one after the other, over a store that may fail at any
request, before or after it took effect.  `Makes` counts the camera rows that a
program can write.  What the console makes of a key that it does not remember is
the business of `Allowed`.
-/

namespace EdgeVms.Verified.RetriedCreate

open Process Python Platform Vms VmsController

variable {ι M α β : Type}

instance (key : Key) : Decidable (OfCamera key) := inferInstanceAs (Decidable (_ ∧ _))

/-- The rows of cameras that are there now and were not before. -/
def created (before after : Rows) : List Key :=
  after.keys.filter fun key => OfCamera key ∧ before.read key = none

/-! ## How many rows of cameras a program writes -/

/-- The program writes at most `n` rows of cameras. -/
def Makes : Program M α → Nat → Prop
  | .call _ (.put key _ _) next, n =>
    (¬ OfCamera key ∧ ∀ answer, Makes (next answer) n) ∨ (0 < n ∧ ∀ answer, Makes (next answer) (n - 1))
  | .call _ _ next, n => ∀ answer, Makes (next answer) n
  | _, _ => True

namespace Makes

variable {n m : Nat}

theorem mono {p : Program M α} (makes : Makes p n) (le : n ≤ m) : Makes p m := by
  induction p generalizing n m with
  | ret value | raise error => trivial
  | call label request next ih =>
    cases request with
    | put key items cas =>
      obtain ⟨other, later⟩ | ⟨positive, later⟩ := makes
      · exact .inl ⟨other, fun answer => ih answer (later answer) le⟩
      · exact .inr ⟨by omega, fun answer => ih answer (later answer) (by omega)⟩
    | _ => exact fun answer => ih answer (makes answer) le

theorem bind {p : Program M α} {f : α → Program M β} (first : Makes p n) (later : ∀ value, Makes (f value) m) :
    Makes (p >>= f) (n + m) := by
  induction p generalizing n with
  | ret value => exact (later value).mono (by omega)
  | raise error => trivial
  | call label request next ih =>
    cases request with
    | put key items cas =>
      obtain ⟨other, rest⟩ | ⟨positive, rest⟩ := first
      · exact .inl ⟨other, fun answer => ih answer (rest answer)⟩
      · have fewer : n + m - 1 = n - 1 + m := by omega
        refine .inr ⟨by omega, fun answer => ?_⟩
        rw [fewer]
        exact ih answer (rest answer)
    | _ => exact fun answer => ih answer (first answer)

theorem tryCatch {p : Program M α} {handle : Exn → Program M α} (first : Makes p n)
    (later : ∀ error, Makes (handle error) m) : Makes (tryCatch p handle) (n + m) := by
  induction p generalizing n with
  | ret value => trivial
  | raise error => exact (later error).mono (by omega)
  | call label request next ih =>
    cases request with
    | put key items cas =>
      obtain ⟨other, rest⟩ | ⟨positive, rest⟩ := first
      · exact .inl ⟨other, fun answer => ih answer (rest answer)⟩
      · have fewer : n + m - 1 = n - 1 + m := by omega
        refine .inr ⟨by omega, fun answer => ?_⟩
        rw [fewer]
        exact ih answer (rest answer)
    | _ => exact fun answer => ih answer (first answer)

theorem within {phase : Phase} {p : Program M α} (makes : Makes p n) : Makes (p.within phase) n := by
  induction p generalizing n with
  | ret value | raise error => trivial
  | call label request next ih =>
    cases request with
    | put key items cas =>
      obtain ⟨other, rest⟩ | ⟨positive, rest⟩ := makes
      · exact .inl ⟨other, fun answer => ih answer (rest answer)⟩
      · exact .inr ⟨positive, fun answer => ih answer (rest answer)⟩
    | _ => exact fun answer => ih answer (makes answer)

/-- The next request writes no row of a camera, or one of those allowed. -/
theorem step {label : Phase} {request : Request M} {next : request.Answer → Program M α}
    (makes : Makes (.call (I := interface M) label request next) n) (answer : request.Answer) :
    (Makes (next answer) n ∧ ∀ key items cas, request = .put key items cas → ¬ OfCamera key) ∨
      (0 < n ∧ Makes (next answer) (n - 1)) := by
  cases request with
  | put key items cas =>
    obtain ⟨other, later⟩ | ⟨positive, later⟩ := makes
    · refine .inl ⟨later answer, fun _ _ _ same => ?_⟩
      cases same
      exact other
    · exact .inr ⟨positive, later answer⟩
  | _ => exact .inl ⟨makes answer, fun _ _ _ same => nomatch same⟩

theorem reads {p : Program M α} (reads : ReadsOnly p) : Makes p 0 := by
  induction p with
  | ret value | raise error => trivial
  | call label request next ih =>
    cases request with
    | put key items cas => exact reads.elim
    | remember change => exact reads.elim
    | _ => exact fun answer => ih answer (reads answer)

theorem value (result : Except Error α) : Makes (Program.value result : Program M α) 0 := reads (.value result)

/-- `bind`, where the first program only looks. -/
theorem look {p : Program M α} {f : α → Program M β} (first : ReadsOnly p) (later : ∀ value, Makes (f value) n) :
    Makes (p >>= f) n := ((reads first).bind later).mono (by omega)

/-- `bind`, where the second program writes no row of a camera. -/
theorem last {p : Program M α} {f : α → Program M β} (first : Makes p n) (later : ∀ value, Makes (f value) 0) :
    Makes (p >>= f) n := first.bind later

/-- The row of a camera. -/
theorem put {key : Key} {items : Dict Value} {cas : Option Nat} : Makes (Program.put key items cas : Program M Nat) 1 :=
  last (.inr ⟨Nat.one_pos, fun _ => trivial⟩) fun answer => reads (.ofExcept answer)

theorem attempt {path : Key} (other : ¬ OfCamera path) {new : Dict Value} {index : Nat}
    {lost : Program M (Dict Value)} (again : Makes lost 0) : Makes (Controller.attempt path new index lost) 0 := by
  refine tryCatch (n := 0) (m := 0) ?_ fun error => ?_
  · exact last (last (.inl ⟨other, fun _ => trivial⟩) fun answer => reads (.ofExcept answer)) fun _ => trivial
  · split
    · exact again
    · trivial

theorem write {path : Key} (other : ¬ OfCamera path) {mutate : Dict Value → Program M (Option (Dict Value))}
    (mutates : ∀ it, ReadsOnly (mutate it)) : Makes (Controller.write path mutate) 0 := by
  have rounds : ∀ left, Makes (Controller.writeRounds path mutate 10 left) 0 := by
    intro left
    induction left with
    | zero => trivial
    | succ left ih =>
      apply look (.get path)
      intro found
      apply look (mutates _)
      intro new
      cases new with
      | none => trivial
      | some new => exact attempt other ih
  exact rounds 10

end Makes

theorem not_ofCamera_placement (cid : Int) : ¬ OfCamera (placementKey cid) := by
  simp [OfCamera, camerasKey, placementKey, Subsystem.config]

theorem not_ofCamera_assignment (worker : String) : ¬ OfCamera (vms.assignment worker) := by
  simp [OfCamera, camerasKey, Subsystem.assignment, Subsystem.config]

theorem makes_createCamera (fields : Dict Value) : Makes (createCamera fields : Program M _) 1 := by
  apply Makes.look (.ofExcept _)
  intro _
  dsimp only
  split
  · trivial
  · have counts : Makes (nextId : Program M Int) 0 := by
      apply Makes.last
      · apply Makes.write not_ofCamera_nextId
        intro it
        exact .bind (.value _) fun _ => trivial
      · intro new
        exact .value _
    have keeps (cid : Int) (days : Option Int) : Makes (retention cid days : Program M Unit) 0 := by
      refine Makes.last (Makes.write (not_ofCamera_retention cid) fun it => ?_) fun _ => trivial
      cases days <;> dsimp only <;> split <;> trivial
    refine Makes.mono (n := 0 + 1) (counts.bind fun cid => ?_) (by omega)
    apply Makes.look (.value _)
    intro r
    apply Makes.look (.value _)
    intro it
    refine Makes.put.last fun _ => ?_
    apply Makes.look (.value _)
    intro days
    exact (keeps cid (some days)).last fun _ => trivial

theorem makes_assignAdd (worker unit : String) : Makes (Controller.assignAdd vms worker unit : Program M _) 0 := by
  apply Makes.last
  · apply Makes.write (not_ofCamera_assignment worker)
    intro it
    apply ReadsOnly.bind (.value _)
    intro a
    split <;> trivial
  · intro written
    exact .value _

theorem makes_place (capacity cid : Int) (workers : Option (List String)) :
    Makes (VmsController.place capacity cid workers : Program M _) 0 := by
  apply Makes.look (.placement cid)
  intro found
  cases found with
  | some pl => trivial
  | none =>
    apply Makes.look (.candidates workers)
    intro live
    apply Makes.look (.bestRounds ..)
    rintro ⟨best, most⟩
    cases best with
    | none => trivial
    | some best =>
      apply Makes.look (p := Program.wall) fun _ => trivial
      intro now
      apply Makes.last (Makes.write (not_ofCamera_placement cid) (.placeRow _ _ now))
      intro written
      apply Makes.look (.value _)
      intro pl
      exact (makes_assignAdd _ _).within.last fun _ => trivial

theorem makes_clusterPlace (capacity cid : Int) (workers : Option (List String)) :
    Makes (ClusterController.place capacity cid workers : Program M _) 0 := by
  apply Makes.look (.placement cid)
  intro found
  cases found with
  | some pl => trivial
  | none =>
    apply Makes.look (Reachability.readsOnly_camera cid)
    intro cam
    cases cam with
    | none => trivial
    | some cam =>
      apply Makes.look (.candidates workers)
      intro live
      apply Makes.look (.bind (.value _) fun needs => Reachability.readsOnly_eligibleRounds ..)
      intro pool
      dsimp only
      split
      · trivial
      · apply Makes.look (.bestRounds ..)
        rintro ⟨best, most⟩
        cases best with
        | none => trivial
        | some best =>
          apply Makes.look (.value _)
          intro labels
          apply Makes.look (Reachability.readsOnly_serverOf best)
          intro server
          apply Makes.look (p := Program.wall) fun _ => trivial
          intro now
          apply Makes.last (Makes.write (not_ofCamera_placement cid) (.placeRow _ _ now))
          intro written
          apply Makes.look (.value _)
          intro pl
          exact (makes_assignAdd _ _).last fun _ => trivial

theorem makes_createCamera_refused {fields : Dict Value}
    (refused : (refuse fields).isOk = false ∨ (fields.getD "source" .none).truthy = false) :
    ∃ error, (createCamera fields : Program M _) = .raise error := by
  unfold createCamera
  cases checked : refuse fields with
  | error error => exact ⟨error, rfl⟩
  | ok _ =>
    rw [checked] at refused
    have noSource : (fields.getD "source" .none).truthy = false := refused.resolve_left Bool.noConfusion
    simp only [Proc.ofExcept, Proc.bind_eq, Proc.ret_bind, noSource, Bool.not_false, if_true]
    exact ⟨_, rfl⟩

/-! ## A store that may fail -/

/-- What becomes of a request to the store: an exception comes before or after it takes effect, or none does. -/
inductive Mishap where
  | none
  | before (error : Exn)
  | after (error : Exn)

variable [DecidableEq ι]

/-- The platform's handler over a store whose requests may go wrong, each by its number. -/
def faulty (store : Variables) (view : View) (i : ι) (mishaps : Nat → Mishap) : Handler (interface M) (World ι M)
  | .get key, world =>
    match mishaps world.served with
    | .none => handler store view i (.get key) world
    | .before error | .after error => (.error error, world.tick)
  | .put key items cas, world =>
    match mishaps world.served with
    | .none => handler store view i (.put key items cas) world
    | .before error => (.error error, world.tick)
    | .after error => (.error error, (handler store view i (.put key items cas) world).2)
  | request, world => handler store view i request world

variable {store : Variables} {view : View} {i : ι} {mishaps : Nat → Mishap}

theorem faulty_vars (honest : Honest store) (request : Request M) (world : World ι M) :
    (faulty store view i mishaps request world).2.vars = world.vars ∨
      ∃ key items cas, request = .put key items cas ∧
        (faulty store view i mishaps request world).2.vars = world.vars.write key (stored items) := by
  have served := honest.step_cases view i request world
  cases request with
  | put key items cas =>
    have written : (handler store view i (.put key items cas) world).2.vars = world.vars ∨
        (handler store view i (.put key items cas) world).2.vars = world.vars.write key (stored items) := by
      obtain kept | ⟨_, _, _, same, -, wrote⟩ := served
      · exact .inl kept
      · cases same
        exact .inr wrote
    simp only [faulty]
    split
    · exact written.imp_right fun wrote => ⟨key, items, cas, rfl, wrote⟩
    · exact .inl rfl
    · exact written.imp_right fun wrote => ⟨key, items, cas, rfl, wrote⟩
  | get key =>
    refine .inl ?_
    simp only [faulty]
    split <;> rfl
  | _ => exact .inl rfl

theorem mem_created {before after : Rows} {key : Key} :
    key ∈ created before after ↔ after.read key ≠ none ∧ OfCamera key ∧ before.read key = none := by
  simp only [created, List.mem_filter, Versioned.mem_keys, decide_eq_true_eq]

/-- A row that is new after two steps is new after one of them. -/
theorem created_or {first third : Rows} {key : Key} (second : Rows) (new : key ∈ created first third) :
    key ∈ created first second ∨ key ∈ created second third := by
  obtain ⟨there, camera, absent⟩ := mem_created.mp new
  by_cases between : second.read key = none
  · exact .inr (mem_created.mpr ⟨there, camera, between⟩)
  · exact .inl (mem_created.mpr ⟨between, camera, absent⟩)

theorem created_write {rows : Rows} {key key' : Key} {items : Items}
    (new : key' ∈ created rows (rows.write key items)) : key' = key := by
  obtain ⟨there, -, absent⟩ := mem_created.mp new
  by_contra other
  rw [Versioned.read_write_other _ _ other] at there
  exact there absent

theorem created_self (rows : Rows) : created rows rows = [] := by
  refine List.eq_nil_iff_forall_not_mem.mpr fun key new => ?_
  obtain ⟨there, -, absent⟩ := mem_created.mp new
  exact there absent

/-- What is new after a program is among as many rows as it can write. -/
theorem run_among (honest : Honest store) {p : Program M α} {n : Nat} (makes : Makes p n) (world : World ι M) :
    ∃ keys : List Key, keys.length ≤ n ∧
      ∀ key ∈ created world.vars (p.run (faulty store view i mishaps) world).2.vars, key ∈ keys := by
  induction p generalizing n world with
  | ret value | raise error =>
    refine ⟨[], Nat.zero_le _, fun key new => ?_⟩
    have nothing := created_self world.vars
    exact nothing ▸ new
  | call label request next ih =>
    rw [Proc.run_call]
    generalize stepped : faulty store view i mishaps request world = step
    have moved := @faulty_vars _ _ _ store view i mishaps honest request world
    rw [stepped] at moved
    -- a row of a camera that this request writes uses up one of the `n`
    obtain ⟨later, other⟩ | ⟨positive, later⟩ := makes.step step.1
    · obtain ⟨keys, few, among⟩ := ih step.1 later step.2
      refine ⟨keys, few, fun key new => ?_⟩
      obtain here | rest := created_or step.2.vars new
      · exfalso
        obtain kept | ⟨written, items, cas, same, wrote⟩ := moved
        · rw [kept, created_self] at here
          cases here
        · rw [wrote] at here
          obtain rfl := created_write here
          exact other _ _ _ same (mem_created.mp here).2.1
      · exact among key rest
    · obtain ⟨keys, few, among⟩ := ih step.1 later step.2
      obtain kept | ⟨written, items, cas, same, wrote⟩ := moved
      · refine ⟨keys, by omega, fun key new => among key ?_⟩
        rwa [kept]
      · refine ⟨written :: keys, by simp only [List.length_cons]; omega, fun key new => ?_⟩
        obtain here | rest := created_or step.2.vars new
        · rw [wrote] at here
          exact List.mem_cons.mpr (.inl (created_write here))
        · exact List.mem_cons_of_mem _ (among key rest)

theorem run_creates (honest : Honest store) {p : Program M α} {n : Nat} (makes : Makes p n) (world : World ι M) :
    (created world.vars (p.run (faulty store view i mishaps) world).2.vars).length ≤ n := by
  obtain ⟨keys, few, among⟩ := run_among honest makes world
  have once : (created world.vars (p.run (faulty store view i mishaps) world).2.vars).Nodup :=
    Versioned.nodup _ |>.filter _
  exact (List.subperm_of_subset once among).length_le.trans few

/-! ## The requests to a console -/

/-- The console of one box, or that of a cluster. -/
inductive Deployment where
  | box
  | cluster

def Deployment.doPost : Deployment → Int → Option String → Except Exn (Dict Value) → Dict Response →
    Program M (Response × Dict Response)
  | .box => VmsConsole.doPost
  | .cluster => ClusterConsole.doPost

/-- A request: its `Idempotency-Key`, and its body. -/
structure Post where
  key : Option String
  body : Except Exn (Dict Value)

/-- A console in the world, and what its requests made. -/
structure Session (ι M : Type) where
  world : World ι M
  seen : Dict Response
  /-- Every row of a camera that came about during a request, with the key of the request. -/
  made : List (String × Key)

/-- A console that has just been started. -/
def Session.open_ (world : World ι M) : Session ι M := ⟨world, [], []⟩

/-- The rows of the cameras that the requests with this key made. -/
def Session.madeUnder (session : Session ι M) (key : String) : List Key :=
  (session.made.filter (·.1 = key)).map Prod.snd

section Console

variable (store : Variables) (view : View) (i : ι) (mishaps : Nat → Mishap) (deployment : Deployment) (capacity : Int)

/-- The console serves one request.  After an exception the cache is what it was. -/
def Session.post (session : Session ι M) (post : Post) : Session ι M :=
  let (result, world) := (deployment.doPost capacity post.key post.body session.seen).run
    (faulty store view i mishaps) session.world
  { world := world
    seen := match result with
      | .ok (_, seen) => seen
      | .error _ => session.seen
    made := session.made ++ (created session.world.vars world.vars).map fun row => (post.key.getD "", row) }

end Console

/-- Every key has made one camera at most. -/
def AtMostOnce (session : Session ι M) : Prop := ∀ key, (session.madeUnder key).length ≤ 1

/-- No camera comes of this body. -/
def Refused (post : Post) : Prop :=
  match post.body with
  | .ok fields => (refuse fields).isOk = false ∨ (fields.getD "source" .none).truthy = false
  | .error _ => True

/-- A camera was made under the key, and no answer is remembered for it. -/
def Unanswered (session : Session ι M) (key : String) : Prop :=
  session.seen.get? key = none ∧ session.madeUnder key ≠ []

/-- A key whose camera has no answer comes back with no body that makes another. -/
def Allowed (session : Session ι M) (post : Post) : Prop :=
  ∀ key, post.key = some key → Unanswered session key → Refused post

instance (post : Post) : Decidable (Refused post) := by
  unfold Refused
  cases post.body <;> infer_instance

instance (session : Session ι M) (key : String) : Decidable (Unanswered session key) :=
  inferInstanceAs (Decidable (_ ∧ _))

instance (session : Session ι M) (post : Post) : Decidable (Allowed session post) := by
  unfold Allowed
  cases post.key with
  | none => exact .isTrue nofun
  | some key => exact decidable_of_iff (Unanswered session key → Refused post) (by simp)

theorem makes_post {missing detail : String} {place : Int → Program M (Option Placement)}
    (places : ∀ cid, Makes (place cid) 0) (post : Post) (seen : Dict Response) :
    Makes (Console.post missing detail place post.key post.body seen) 1 := by
  unfold Console.post
  split
  · trivial
  · trivial
  · split
    · trivial
    · refine Makes.last (Makes.tryCatch (n := 1) (m := 0) ?_ fun error => ?_) fun _ => trivial
      · apply Makes.look (.ofExcept _)
        intro fields
        apply (makes_createCamera fields).last
        intro r
        apply Makes.look (.value _)
        intro cid
        exact (places cid).last fun _ => trivial
      · cases error <;> trivial

/-- A body that is refused makes no camera, and a key that has an answer makes none. -/
theorem makes_none {missing detail : String} {place : Int → Program M (Option Placement)} {post : Post}
    {seen : Dict Response} (idle : Refused post ∨ ∀ key, post.key = some key → seen.get? key ≠ none) :
    Makes (Console.post missing detail place post.key post.body seen) 0 := by
  unfold Console.post
  split
  · trivial
  · trivial
  next key _ keyed =>
    split
    · trivial
    next unseen =>
      obtain refused | remembered := idle
      · refine Makes.last (Makes.tryCatch (n := 0) (m := 0) ?_ fun error => ?_) fun _ => trivial
        · unfold Refused at refused
          cases body : post.body with
          | error error => trivial
          | ok fields =>
            rw [body] at refused
            obtain ⟨error, raised⟩ := makes_createCamera_refused (M := M) refused
            simp only [Proc.ofExcept, Proc.bind_eq, Proc.ret_bind, raised, Proc.raise_bind]
            trivial
        · cases error <;> trivial
      · exact absurd unseen (remembered key keyed)

theorem Deployment.makes_one (deployment : Deployment) (capacity : Int) (post : Post) (seen : Dict Response) :
    Makes (deployment.doPost capacity post.key post.body seen : Program M _) 1 := by
  cases deployment with
  | box => exact makes_post (fun cid => makes_place capacity cid none) post seen
  | cluster => exact makes_post (fun cid => makes_clusterPlace capacity cid none) post seen

theorem Deployment.makes_none (deployment : Deployment) (capacity : Int) {post : Post} {seen : Dict Response}
    (idle : Refused post ∨ ∀ key, post.key = some key → seen.get? key ≠ none) :
    Makes (deployment.doPost capacity post.key post.body seen : Program M _) 0 := by
  cases deployment with
  | box => exact RetriedCreate.makes_none idle
  | cluster => exact RetriedCreate.makes_none idle

variable {deployment : Deployment} {capacity : Int}

theorem madeUnder_post (session : Session ι M) (post : Post) (key : String) :
    (session.post store view i mishaps deployment capacity post).madeUnder key = session.madeUnder key ++
      if post.key.getD "" = key then
        created session.world.vars (session.post store view i mishaps deployment capacity post).world.vars
      else [] := by
  unfold Session.madeUnder
  conv_lhs => rw [Session.post]
  rw [List.filter_append, List.map_append]
  congr 1
  rw [List.filter_map, List.map_map]
  split
  next same => simp [Function.comp_def, same]; rfl
  next other => simp [Function.comp_def, other]

/-- A request makes nothing, or it makes the first camera of its key. -/
theorem post_makes (honest : Honest store) {session : Session ι M} {post : Post} (allowed : Allowed session post) :
    created session.world.vars (session.post store view i mishaps deployment capacity post).world.vars = [] ∨
      session.madeUnder (post.key.getD "") = [] ∧
        (created session.world.vars (session.post store view i mishaps deployment capacity post).world.vars).length ≤ 1 := by
  by_cases idle : Refused post ∨ ∀ key, post.key = some key → session.seen.get? key ≠ none
  · refine .inl (List.eq_nil_of_length_eq_zero (Nat.le_zero.mp ?_))
    exact run_creates honest (deployment.makes_none capacity idle) session.world
  · rw [not_or, not_forall] at idle
    obtain ⟨accepted, key, remembers⟩ := idle
    obtain ⟨keyed, unseen⟩ := Classical.not_imp.mp remembers
    rw [not_not] at unseen
    have new : session.madeUnder key = [] := by
      by_contra made
      exact accepted (allowed key keyed ⟨unseen, made⟩)
    refine .inr ⟨by rw [keyed]; exact new, ?_⟩
    exact run_creates honest (deployment.makes_one capacity post session.seen) session.world

theorem post_atMostOnce (honest : Honest store) {session : Session ι M} {post : Post} (allowed : Allowed session post)
    (once : AtMostOnce session) : AtMostOnce (session.post store view i mishaps deployment capacity post) := by
  intro key
  rw [madeUnder_post]
  obtain nothing | ⟨new, few⟩ := @post_makes _ _ _ store view i mishaps deployment capacity honest session post allowed
  · rw [nothing, ite_self, List.append_nil]
    exact once key
  · split
    next same =>
      rw [← same, new, List.nil_append]
      exact few
    next other =>
      rw [List.append_nil]
      exact once key

/-- As long as no key comes back whose camera has no answer. -/
theorem created_at_most_once (honest : Honest store) (world : World ι M) (posts : List Post)
    (along : Along (Session.post store view i mishaps deployment capacity) Allowed posts (Session.open_ world)) :
    AtMostOnce (posts.foldl (Session.post store view i mishaps deployment capacity) (Session.open_ world)) := by
  refine along.keeps (fun session post allowed once => post_atMostOnce honest allowed once) fun key => ?_
  exact Nat.zero_le 1

/-! ## A create that is repeated -/

def gateCamera : Post := ⟨some "k1", .ok [("source", .str (.plain "driverpack://file/gate"))]⟩

def yardCamera : Post := ⟨some "k2", .ok [("source", .str (.plain "driverpack://file/yard"))]⟩

/-- The store fails at its fifth request, for the policy row of the first camera. -/
def timedOut : Nat → Mishap
  | 4 => .before (.python (.runtimeError "timed out"))
  | _ => .none

/-- One camera has no answer, the next has one, and a third request repeats it. -/
theorem created_at_most_once_two : AtMostOnce
    ([gateCamera, yardCamera, yardCamera].foldl (Session.post FileVariables {} () timedOut .box 16)
      (Session.open_ (freshWorld Unit))) :=
  created_at_most_once FileVariables.honest (freshWorld Unit) [gateCamera, yardCamera, yardCamera] (by decide +kernel)

/-- The row of the camera is there when the policy row fails: the repeated request makes another camera. -/
theorem repeated_create_makes_two : ¬ AtMostOnce
    ([gateCamera, gateCamera].foldl (Session.post FileVariables {} () timedOut .box 16)
      (Session.open_ (freshWorld Unit))) := by
  intro once
  have two : (([gateCamera, gateCamera].foldl (Session.post FileVariables {} () timedOut .box 16)
      (Session.open_ (freshWorld Unit))).madeUnder "k1").length = 2 := by decide +kernel
  exact absurd (once "k1") (by rw [two]; decide)

end EdgeVms.Verified.RetriedCreate
